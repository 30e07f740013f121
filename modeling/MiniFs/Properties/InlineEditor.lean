import MiniFs.Simulator.Session

/-! # Writing with the inline editor

The editor puts its text between double quotes into a command line, and the command line is
split and stripped of quotes again. File name and text come through if the one is a plain word
and the other neither is empty nor has a double quote in it or a single quote at an end.
-/

set_option autoImplicit false

namespace MiniFs.Properties
open Simulator Library Library.Words Library.Quoted

def newContent (append : Bool) (f : File) (content : JsString) : JsString :=
  if append then f.content ++ content else content

/-- `content` is in the file found under `name`, and the other files are as they were. -/
def Leaves (fs : FS) (name content : JsString) (fs' : FS) : Prop :=
  ∃ f', fs'.files = (fs.assign name f').files ∧ f'.name = name ∧ f'.content = content

/-- Wherever there is such a file and room for the new content, the editor stores it. -/
def RoundTrips (append : Bool) (name content : JsString) : Prop :=
  ∀ ts fs f, Reachable fs → fs.find name = some f →
    (∃ r, doWrite ts fs f (newContent append f content) = .ok r) →
      ∃ fs', doInlineWrite ts name content append fs = some fs' ∧
        Leaves fs name (newContent append f content) fs'

structure Survives (name content : JsString) : Prop where
  plain : ∀ c ∈ name, isQuote c = false ∧ isSeparator c = false
  ne_nil : content ≠ []
  noDouble : 34 ∉ content
  first : content.head? ≠ some 39
  last : content.getLast? ≠ some 39

variable {fs fs' : FS} {ts name content : JsString} {f : File} {append : Bool}

/-! ## Through the command line and back -/

theorem length_stripFirst (s : JsString) :
    (stripFirst s).length = s.length - if s.head?.any isQuote then 1 else 0 := by
  unfold stripFirst
  split_ifs
  · exact List.length_tail
  · rfl

theorem length_stripLast (s : JsString) :
    (stripLast s).length = s.length - if s.getLast?.any isQuote then 1 else 0 := by
  unfold stripLast
  split_ifs
  · exact List.length_dropLast
  · rfl

theorem length_stripQuotes (s : JsString) :
    (stripQuotes s).length ≤ s.length ∧ s.length ≤ (stripQuotes s).length + 2 := by
  have hfirst := length_stripFirst s
  have hlast := length_stripLast (stripFirst s)
  rw [stripQuotes]
  split_ifs at hfirst hlast <;> omega

theorem stripQuotes_eq_iff (s : JsString) :
    stripQuotes s = s ↔ s.head?.any isQuote = false ∧ s.getLast?.any isQuote = false := by
  constructor
  · intro heq
    have hlen := congrArg List.length heq
    have hfirst := length_stripFirst s
    have hlast := length_stripLast (stripFirst s)
    rw [stripQuotes] at hlen
    by_cases hs : s = []
    · simp [hs]
    have hpos := List.length_pos_iff.mpr hs
    have hhead : s.head?.any isQuote = false := by
      by_contra hhead
      rw [if_pos (by simpa using hhead)] at hfirst
      omega
    refine ⟨hhead, ?_⟩
    by_contra hend
    rw [stripFirst, if_neg (by simp [hhead])] at hlast hlen
    rw [if_pos (by simpa using hend)] at hlast
    omega
  · rintro ⟨hhead, hend⟩
    rw [stripQuotes, stripFirst, if_neg (by simp [hhead]), stripLast, if_neg (by simp [hend])]

theorem any_isQuote_iff {o : Option UInt16} (h : o ≠ some 34) :
    o.any isQuote = false ↔ o ≠ some 39 := by
  cases o with
  | none => simp
  | some c =>
    have hc : c ≠ 34 := fun he => h (congrArg some he)
    simp [isQuote, hc]

/-- The words behind the command give back name and text exactly if both come through. -/
theorem survives_iff (hne : name ≠ []) :
    (∃ args, args ≠ [] ∧ smartSplit (name ++ 32 :: 34 :: (content ++ [34])) = name :: args ∧
      textArgument args = content) ↔ Survives name content := by
  have hends (h : 34 ∉ content) : stripQuotes content = content ↔
      content.head? ≠ some 39 ∧ content.getLast? ≠ some 39 := by
    rw [stripQuotes_eq_iff, any_isQuote_iff fun hh => h (List.mem_of_head? hh),
      any_isQuote_iff fun hh => h (List.mem_of_getLast? hh)]
  have htext : textArgument [content] = stripQuotes content := by
    rw [textArgument, List.intercalate_singleton]
  rw [smartSplit_eq]
  constructor
  · rintro ⟨args, hargs, hsplit, hcontent⟩
    obtain ⟨hle, hge⟩ := length_stripQuotes ([32].intercalate args)
    rw [← textArgument, hcontent] at hle hge
    obtain ⟨hquote, hdouble⟩ := of_scan_eq_cons (by decide) (by decide) hsplit hargs hle hge
    rw [scan_argument (by decide) (by decide) (by decide) hquote hdouble] at hsplit
    have hword : IsWord isSeparator name := by
      cases hwords : words isSeparator name with
      | nil =>
        rw [hwords, List.nil_append, flush] at hsplit
        split_ifs at hsplit
        exact absurd (List.cons.inj hsplit).2.symm hargs
      | cons w ws =>
        rw [hwords] at hsplit
        have hmem : w ∈ words isSeparator name := by simp [hwords]
        exact (List.cons.inj hsplit).1 ▸ isWord_of_mem hmem
    rw [words_word hword, List.singleton_append] at hsplit
    have hflush := (List.cons.inj hsplit).2
    unfold flush at hflush
    split_ifs at hflush with hnil
    · exact absurd hflush.symm hargs
    · rw [← hflush, htext, hends hdouble] at hcontent
      exact ⟨fun c hc => ⟨hquote c hc, hword.2 c hc⟩, hnil, hdouble, hcontent.1, hcontent.2⟩
  · intro h
    have hword : IsWord isSeparator name := ⟨hne, fun c hc => (h.plain c hc).2⟩
    refine ⟨[content], List.cons_ne_nil _ _, ?_, ?_⟩
    · rw [scan_argument (by decide) (by decide) (by decide) (fun c hc => (h.plain c hc).1)
        h.noDouble, words_word hword, flush, if_neg h.ne_nil]
      rfl
    · rw [htext, hends h.noDouble]
      exact ⟨h.first, h.last⟩

/-! ## The call -/

def storeOp (append : Bool) (name data : JsString) : Op :=
  if append then .append name data else .write name data

/-- The editor's line is a call or a usage message. -/
theorem parse_inlineCommand : parseCommand (inlineCommand append name content) =
    match smartSplit (name ++ 32 :: 34 :: (content ++ [34])) with
    | t :: arg :: args => .op (storeOp append t (textArgument (arg :: args)))
    | _ => .usage (if append then js ['a', 'p', 'p', 'e', 'n', 'd']
        else js ['w', 'r', 'i', 't', 'e']) := by
  have hlast : ∀ c ∈ (name ++ 32 :: 34 :: (content ++ [34])).getLast?, isWhiteSpace c = false := by
    intro c hc
    rw [← List.cons_append, ← List.cons_append, ← List.append_assoc, List.getLast?_concat] at hc
    obtain rfl := Option.some.inj hc
    decide
  rw [inlineCommand]
  cases append with
  | false =>
    rw [if_neg Bool.false_ne_true, parseCommand_eq (by decide) (by decide) (by simp) hlast]
    generalize smartSplit (name ++ 32 :: 34 :: (content ++ [34])) = parts
    obtain _ | ⟨t, _ | ⟨arg, args⟩⟩ := parts <;>
      simp +decide only [parseParts, if_true, if_false, storeOp]
  | true =>
    rw [if_pos rfl, parseCommand_eq (by decide) (by decide) (by simp) hlast]
    generalize smartSplit (name ++ 32 :: 34 :: (content ++ [34])) = parts
    obtain _ | ⟨t, _ | ⟨arg, args⟩⟩ := parts <;>
      simp +decide only [parseParts, if_true, if_false, storeOp]

/-! ## What the call does -/

/-- Both calls put what `_doWrite` gives back into the file list. -/
theorem perform_storeOp_eq (hfmt : fs.formatted = true) (data : JsString) :
    (perform ts (storeOp append name data) fs).2 =
      match fs.find name with
      | none => fs
      | some f => match doWrite ts fs f (newContent append f data) with
        | .error _ => fs
        | .ok (f', fs') => fs'.assign name f' := by
  cases append with
  | false =>
    simp only [storeOp, Bool.false_eq_true, if_false, perform, fsWrite, guard_formatted hfmt,
      newContent]
    cases fs.find name with
    | none => rfl
    | some f =>
      dsimp only
      cases doWrite ts fs f data <;> rfl
  | true =>
    simp only [storeOp, if_true, Bool.false_eq_true, if_false, perform, fsAppend,
      guard_formatted hfmt, newContent]
    cases fs.find name with
    | none => rfl
    | some f =>
      dsimp only
      cases doWrite ts fs f (f.content ++ data) <;> rfl

/-- The call on a file with room for what it is to store. -/
theorem perform_storeOp (hfmt : fs.formatted = true) (hf : fs.find name = some f) {data : JsString}
    (hroom : Room fs f.blocks.length (newContent append f data).length) :
    (perform ts (storeOp append name data) fs).2 =
      (fs.charge f.blocks.length (newContent append f data).length).assign name
        (stored ts fs f (newContent append f data)) := by
  rw [perform_storeOp_eq hfmt, hf]
  dsimp only
  rw [doWrite_room hroom]

/-- The call on a file without room, or on no file. -/
theorem perform_storeOp_refused (hfmt : fs.formatted = true) {data : JsString}
    (hno : ∀ f, fs.find name = some f →
      ¬Room fs f.blocks.length (newContent append f data).length) :
    (perform ts (storeOp append name data) fs).2 = fs := by
  rw [perform_storeOp_eq hfmt]
  cases hf : fs.find name with
  | none => rfl
  | some f =>
    obtain ⟨msg, hmsg⟩ := doWrite_refused ts (hno f hf)
    dsimp only
    rw [hmsg]

theorem doInlineWrite_call (hne : name ≠ []) {t : JsString} {args : List JsString}
    (hsplit : smartSplit (name ++ 32 :: 34 :: (content ++ [34])) = t :: args) (hargs : args ≠ []) :
    doInlineWrite ts name content append fs =
      some (perform ts (storeOp append t (textArgument args)) fs).2 := by
  rw [doInlineWrite, if_neg hne, parseAndRun, parse_inlineCommand, hsplit]
  cases args with
  | nil => exact absurd rfl hargs
  | cons arg args => rfl

theorem doInlineWrite_usage (hne : name ≠ [])
    (hsplit : (smartSplit (name ++ 32 :: 34 :: (content ++ [34]))).length < 2) :
    doInlineWrite ts name content append fs = some fs := by
  rw [doInlineWrite, if_neg hne, parseAndRun, parse_inlineCommand]
  rcases h : smartSplit (name ++ 32 :: 34 :: (content ++ [34])) with - | ⟨t, - | ⟨arg, args⟩⟩
  · rfl
  · rfl
  · rw [h] at hsplit
    exact absurd hsplit (by simp)

theorem roundTrips_of_survives (hne : name ≠ []) (h : Survives name content) :
    RoundTrips append name content := by
  intro ts fs f hreach hf hok
  have hfmt := formatted_of_find hreach hf
  have hroom : Room fs f.blocks.length (newContent append f content).length := by
    by_contra hroom
    obtain ⟨msg, hmsg⟩ := doWrite_refused ts hroom
    obtain ⟨r, hr⟩ := hok
    rw [hmsg] at hr
    cases hr
  obtain ⟨args, hargs, hsplit, htext⟩ := (survives_iff hne).mpr h
  refine ⟨_, doInlineWrite_call hne hsplit hargs, ?_⟩
  rw [htext, perform_storeOp hfmt hf hroom]
  have hname : f.name = name := name_of_find hf
  exact ⟨stored ts fs f (newContent append f content), rfl, hname, rfl⟩

theorem files_assign_single (hfiles : fs.files = [f]) (hname : f.name = name) (f' : File) :
    (fs.assign name f').files = [f'] := by
  have hidx : fs.findIndex name = 0 := by
    rw [FS.findIndex, hfiles, List.findIdx_cons, decide_eq_true hname, cond_true]
  rw [FS.assign, hidx, hfiles]
  rfl

/-- In a state with no other file, only the call that was meant stores a new content. -/
theorem survives_of_roundTrips (hne : name ≠ []) (h : RoundTrips append name content)
    (hreach : Reachable fs) (hfiles : fs.files = [f]) (hname : f.name = name)
    (hnew : newContent append f content ≠ f.content)
    (hroom : Room fs f.blocks.length (newContent append f content).length) :
    Survives name content := by
  have hf : fs.find name = some f := by
    rw [FS.find, hfiles, List.find?_cons_of_pos (by simpa using hname)]
  have hfmt := formatted_of_find hreach hf
  obtain ⟨fs', hrun, f', hfiles', hname', hcontent⟩ := h [] fs f hreach hf ⟨_, doWrite_room hroom⟩
  rw [files_assign_single hfiles hname] at hfiles'
  have hsame : fs' ≠ fs := by
    intro heq
    rw [heq, hfiles] at hfiles'
    exact hnew (hcontent.symm.trans (congrArg File.content (List.cons.inj hfiles').1.symm))
  by_cases hlen : (smartSplit (name ++ 32 :: 34 :: (content ++ [34]))).length < 2
  · rw [doInlineWrite_usage hne hlen] at hrun
    exact absurd (Option.some.inj hrun).symm hsame
  · rcases hsplit : smartSplit (name ++ 32 :: 34 :: (content ++ [34])) with
      - | ⟨t, - | ⟨arg, args⟩⟩
    · simp [hsplit] at hlen
    · simp [hsplit] at hlen
    · rw [doInlineWrite_call hne hsplit (List.cons_ne_nil _ _)] at hrun
      have hstate := Option.some.inj hrun
      by_cases hstored : t = name ∧ Room fs f.blocks.length
          (newContent append f (textArgument (arg :: args))).length
      · obtain ⟨rfl, hroom'⟩ := hstored
        have hfile : fs'.files =
            [stored [] fs f (newContent append f (textArgument (arg :: args)))] := by
          rw [← hstate, perform_storeOp hfmt hf hroom']
          exact files_assign_single hfiles hname _
        rw [hfiles'] at hfile
        have hdata := congrArg File.content (List.cons.inj hfile).1
        rw [hcontent] at hdata
        refine (survives_iff hne).mp ⟨arg :: args, List.cons_ne_nil _ _, hsplit, ?_⟩
        cases append with
        | false => exact hdata.symm
        | true => exact (List.append_cancel_left hdata).symm
      · refine absurd (hstate.symm.trans (perform_storeOp_refused hfmt ?_)) hsame
        intro f₁ hf₁ hroom'
        have hmem := mem_of_find hf₁
        rw [hfiles] at hmem
        obtain rfl := List.mem_singleton.mp hmem
        exact hstored ⟨(name_of_find hf₁).symm.trans hname, hroom'⟩

/-! ## Both directions -/

theorem exists_written {n : ℕ} (h : OneFile name n fs f) (hne : name ≠ []) (hn : 1 ≤ n) :
    ∃ fs f, OneFile name n fs f ∧ f.content = [120] := by
  have hroom := h.room hn
  have hstate : (perform [] (storeOp false name [120]) fs).2 =
      (fs.charge f.blocks.length 1).assign name (stored [] fs f [120]) :=
    perform_storeOp (formatted_of_find h.reachable h.find) h.find hroom
  have hwrite : parseAndRun [] (writeLine name) fs =
      some (.reply (perform [] (.write name [120]) fs).1,
        (fs.charge f.blocks.length 1).assign name (stored [] fs f [120])) := by
    rw [parseAndRun, parse_writeLine hne, execute]
    exact congrArg (fun fs' => some (Answer.reply _, fs')) hstate
  have hlen : ((newBlocks fs f.blocks.length 1).length : ℤ) = needed fs 1 :=
    length_newBlocks fs f.blocks.length 1
  have hfree := h.free
  refine ⟨_, _, ⟨.run h.reachable hwrite, files_assign_single h.files h.name_eq _, h.name_eq, ?_,
    h.oneBlock⟩, rfl⟩
  change 1 ≤ fs.superblock.freeBlocks + f.blocks.length - needed fs 1 +
    ((newBlocks fs f.blocks.length 1).length : ℤ)
  omega

/-- The editor stores its text in every state exactly if name and text come through. Only an empty
text makes a difference when it is appended: the usage message changes nothing. -/
theorem editor_roundTrips_iff (hne : name ≠ []) (hlen : name.length < 32) :
    (RoundTrips false name content ∧ RoundTrips true name content ↔ Survives name content) ∧
      (content ≠ [] → (RoundTrips true name content ↔ Survives name content)) := by
  obtain ⟨fs, f, hone, hnil⟩ := exists_oneFile hne hlen (content.length + 1)
  obtain ⟨fs', f', hone', hwritten⟩ := exists_written hone hne (Nat.le_add_left 1 _)
  have happend (h : RoundTrips true name content) (hcontent : content ≠ []) :
      Survives name content := by
    refine survives_of_roundTrips hne h hone.reachable hone.files hone.name_eq ?_ (hone.room ?_)
    · rwa [newContent, if_pos rfl, hnil]
    · rw [newContent, if_pos rfl, hnil]
      exact Nat.le_succ _
  refine ⟨⟨fun h => ?_, fun h => ⟨roundTrips_of_survives hne h, roundTrips_of_survives hne h⟩⟩,
    fun hcontent => ⟨fun h => happend h hcontent, roundTrips_of_survives hne⟩⟩
  by_cases hcontent : content = []
  · refine survives_of_roundTrips hne h.1 hone'.reachable hone'.files hone'.name_eq ?_
      (hone'.room (Nat.le_succ _))
    rw [hwritten, hcontent]
    exact (List.cons_ne_nil _ _).symm
  · exact happend h.2 hcontent

/-- "hi" comes through, for a file "a". -/
theorem editor_roundTrips_hi : RoundTrips false (js ['a']) (js ['h', 'i']) ∧
    RoundTrips true (js ['a']) (js ['h', 'i']) := by
  have hne : js ['a'] ≠ [] := by decide
  refine (editor_roundTrips_iff hne (by decide)).1.mpr ⟨?_, ?_, ?_, ?_, ?_⟩
  · intro c hc
    rw [List.mem_singleton.mp hc]
    exact ⟨rfl, rfl⟩
  · exact List.cons_ne_nil _ _
  · decide
  · decide
  · decide

/-- A double quote in the text is lost. -/
theorem editor_loses_quote : ¬RoundTrips false (js ['a']) (js ['s', 'a', 'y', ' ', '"', 'x']) := by
  intro h
  have hne : js ['a'] ≠ [] := by decide
  obtain ⟨fs, f, hone, hnil⟩ := exists_oneFile hne (by decide) 6
  have hsurvives := survives_of_roundTrips hne h hone.reachable hone.files hone.name_eq
    (by rw [hnil]; exact List.cons_ne_nil _ _) (hone.room (Nat.le_refl 6))
  exact hsurvives.noDouble (by decide)

end MiniFs.Properties
