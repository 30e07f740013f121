import MiniFs.Core.Shell

/-! # The text behind `write` and `append` in the shell

The words of a line are read through a buffer of 512 bytes, an array of 15 arguments and a
buffer of 480 bytes. A line is stored as typed if its words pass all three; what does not
fit the first becomes a line of its own, what does not fit the second is dropped, and
the third overflows.
-/

set_option autoImplicit false

namespace MiniFs.Properties
open MiniFs.Core Library Library.Words

inductive StoreCmd where
  | write
  | append

def StoreCmd.bytes : StoreCmd → List UInt8
  | .write => ascii ['w', 'r', 'i', 't', 'e']
  | .append => ascii ['a', 'p', 'p', 'e', 'n', 'd']

def StoreCmd.op : StoreCmd → CStr → CStr → FileOp
  | .write => .write
  | .append => .append

/-- On this input the shell makes the one call, with the words joined by single spaces, and reads
on at `rest`. -/
def StoresTyped (cmd : StoreCmd) (name : List UInt8) (ws : List (List UInt8))
    (input rest : List UInt8) : Prop :=
  ∃ n d : CStr, n.bytes = name ∧ d.bytes = [32].intercalate ws ∧
    fsShell input = .call (.file (cmd.op n d)) (fsShell rest)

/-- All bytes that are not blanks are read in one piece. -/
def OnePiece (text : List UInt8) : Prop :=
  ∃ k, ∀ i b, text[i]? = some b → isBlank b = false → i / (lineSize - 1) = k

/-- The line passes the buffers of the shell. -/
structure Passes (line : List UInt8) (ws : List (List UInt8)) : Prop where
  noNul : 0 ∉ line
  onePiece : OnePiece line
  args : ws.length + 2 ≤ maxArgs
  data : ([32].intercalate ws).length < dataSize

variable {cmd : StoreCmd} {line tail rest name : List UInt8} {ws : List (List UInt8)}

/-! ## One line -/

theorem dispatch_store {c n : CStr} {args : List CStr} (hc : c.bytes = cmd.bytes)
    (hargs : args ≠ []) : dispatch (c :: n :: args) = storeArgs cmd.op n args := by
  cases args with
  | nil => exact absurd rfl hargs
  | cons arg args =>
    cases cmd <;> simp [dispatch, hc, StoreCmd.bytes, StoreCmd.op, ascii]

theorem of_storeArgs {op : CStr → CStr → FileOp} {n : CStr} {args : List CStr} {fileOp : FileOp}
    (h : storeArgs op n args = .call (.file fileOp)) :
    (joinArgs args).strlen < dataSize ∧ op n (joinArgs args) = fileOp := by
  unfold storeArgs at h
  split_ifs at h with hlen
  injection h with h
  injection h with h
  exact ⟨hlen, h⟩

theorem StoreCmd.op_inj {cmd cmd' : StoreCmd} {n d n' d' : CStr}
    (h : cmd.op n d = cmd'.op n' d') : cmd = cmd' ∧ n = n' ∧ d = d' := by
  cases cmd <;> cases cmd' <;> simp [StoreCmd.op] at h ⊢ <;> exact h

/-- Only the commands that store a text do so or overflow. -/
theorem dispatch_cases (argv : List CStr) :
    (∃ (cmd : StoreCmd) (c n : CStr) (args : List CStr),
      argv = c :: n :: args ∧ c.bytes = cmd.bytes ∧ args ≠ []) ∨
    (dispatch argv ≠ .overflow ∧
      ∀ (cmd : StoreCmd) n d, dispatch argv ≠ .call (.file (cmd.op n d))) := by
  fun_cases dispatch argv
  case case12 c _ _ _ _ n _ _ _ _ arg args hc =>
    exact .inl ⟨.write, c, n, arg :: args, rfl, hc, List.cons_ne_nil _ _⟩
  case case13 c _ _ _ _ n _ _ _ _ arg args _ hc =>
    exact .inl ⟨.append, c, n, arg :: args, rfl, hc, List.cons_ne_nil _ _⟩
  all_goals exact .inr ⟨LineResult.noConfusion, fun cmd n d h => by cases cmd <;> cases h⟩

theorem of_dispatch_store {argv : List CStr} {n d : CStr}
    (h : dispatch argv = .call (.file (cmd.op n d))) :
    ∃ c args, argv = c :: n :: args ∧ c.bytes = cmd.bytes ∧ args ≠ [] ∧ d = joinArgs args ∧
      (joinArgs args).strlen < dataSize := by
  obtain ⟨cmd', c, n', args, rfl, hc, hargs⟩ | ⟨-, hnot⟩ := dispatch_cases argv
  · rw [dispatch_store hc hargs] at h
    obtain ⟨hlen, hop⟩ := of_storeArgs h
    obtain ⟨rfl, rfl, rfl⟩ := StoreCmd.op_inj hop
    exact ⟨c, args, rfl, hc, hargs, rfl, hlen⟩
  · exact absurd h (hnot cmd n d)

theorem dispatch_ne_next {argv : List CStr} (h : argv ≠ []) : dispatch argv ≠ .next := by
  fun_cases dispatch argv
  case case1 => exact absurd rfl h
  all_goals first | exact LineResult.noConfusion | (unfold storeArgs; split_ifs <;> simp)

section Piece
variable {piece : List UInt8}

theorem tokenize_eq_nil_iff :
    tokenize maxArgs (stripNewline piece) = [] ↔
      words isBlank (stripNewline piece).bytes = [] := by
  rw [← List.map_eq_nil_iff, tokenize_bytes, List.take_eq_nil_iff]
  simp

/-- `exit` and `quit` have no arguments. -/
theorem shellLine_eq (h : 1 < (words isBlank (stripNewline piece).bytes).length) :
    shellLine piece = dispatch (tokenize maxArgs (stripNewline piece)) := by
  have hlen : (stripNewline piece).strlen ≠ 0 := by
    intro hlen
    rw [List.length_eq_zero_iff.mp hlen] at h
    exact absurd h (by decide)
  have hword : ¬((stripNewline piece).bytes = ascii ['e', 'x', 'i', 't'] ∨
      (stripNewline piece).bytes = ascii ['q', 'u', 'i', 't']) := by
    rintro (he | he)
    all_goals
      rw [he] at h
      exact absurd h (by decide)
  simp only [shellLine, if_neg hlen, if_neg hword]

theorem shellLine_next_iff :
    shellLine piece = .next ↔ words isBlank (stripNewline piece).bytes = [] := by
  unfold shellLine
  dsimp only
  split_ifs with hlen hexit
  · simp [List.length_eq_zero_iff.mp hlen]
  · have hne : words isBlank (stripNewline piece).bytes ≠ [] := by
      obtain he | he := hexit
      all_goals
        rw [he]
        decide
    simp [hne]
  · rw [← tokenize_eq_nil_iff]
    constructor
    · intro hnext
      by_contra hne
      exact dispatch_ne_next hne hnext
    · intro hnil
      rw [hnil]
      rfl

theorem shellLine_blank (h : ∀ b ∈ piece, isBlank b = true) : shellLine piece = .next :=
  shellLine_next_iff.mpr (words_blank fun b hb => h b ((stripNewline_begins piece).subset hb))

theorem shellLine_store (h : words isBlank (stripNewline piece).bytes = cmd.bytes :: name :: ws)
    (hws : ws ≠ []) (hargs : ws.length + 2 ≤ maxArgs)
    (hdata : ([32].intercalate ws).length < dataSize) :
    ∃ n d : CStr, n.bytes = name ∧ d.bytes = [32].intercalate ws ∧
      shellLine piece = .call (.file (cmd.op n d)) := by
  have htokens := tokenize_bytes maxArgs (stripNewline piece)
  rw [h, List.take_of_length_le hargs] at htokens
  obtain ⟨c, argv, heq, hc, hargv⟩ := List.map_eq_cons_iff.mp htokens
  obtain ⟨n, args, rfl, hn, rfl⟩ := List.map_eq_cons_iff.mp hargv
  refine ⟨n, joinArgs args, hn, joinArgs_bytes args, ?_⟩
  rw [shellLine_eq (by rw [h]; simp), heq, dispatch_store hc (by simpa using hws), storeArgs,
    if_pos (by rwa [CStr.strlen, joinArgs_bytes])]

theorem of_shellLine_store {n d : CStr} (h : shellLine piece = .call (.file (cmd.op n d))) :
    ∃ ws, (words isBlank (stripNewline piece).bytes).take maxArgs = cmd.bytes :: n.bytes :: ws ∧
      d.bytes = [32].intercalate ws ∧ d.strlen < dataSize := by
  unfold shellLine at h
  dsimp only at h
  split_ifs at h
  obtain ⟨c, args, heq, hc, -, rfl, hlen⟩ := of_dispatch_store h
  refine ⟨args.map CStr.bytes, ?_, joinArgs_bytes args, hlen⟩
  rw [← tokenize_bytes, heq, List.map_cons, List.map_cons, hc]

end Piece

/-! ## Pieces of a line -/

theorem not_mem_of_blank {b : UInt8} (hb : isBlank b = false) {l : List UInt8}
    (h : ∀ b ∈ l, isBlank b = true) : b ∉ l := fun hmem => by
  rw [h b hmem] at hb
  cases hb

theorem onePiece_drop (h : ∀ b ∈ line.take (lineSize - 1), isBlank b = true) :
    OnePiece line ↔ OnePiece (line.drop (lineSize - 1)) := by
  constructor
  · rintro ⟨k, hk⟩
    refine ⟨k - 1, fun i b hi hb => ?_⟩
    rw [List.getElem?_drop] at hi
    have hdiv := hk _ b hi hb
    rw [Nat.add_div_left i (by decide)] at hdiv
    rw [← hdiv, Nat.add_sub_cancel]
  · rintro ⟨k, hk⟩
    refine ⟨k + 1, fun i b hi hb => ?_⟩
    have hge : lineSize - 1 ≤ i := by
      by_contra hlt
      refine not_mem_of_blank hb h (List.mem_of_getElem? (i := i) ?_)
      rwa [List.getElem?_take_of_lt (Nat.lt_of_not_le hlt)]
    have hdiv := hk (i - (lineSize - 1)) b
      (by rwa [List.getElem?_drop, Nat.add_sub_cancel' hge]) hb
    rw [Nat.div_eq_sub_div (by decide) hge, hdiv]

/-- The piece is the first one that has a word in it. -/
theorem OnePiece.first (hline : OnePiece line)
    (h : ¬∀ b ∈ line.take (lineSize - 1), isBlank b = true) :
    ∀ b ∈ line.drop (lineSize - 1), isBlank b = true := by
  obtain ⟨k, hk⟩ := hline
  push Not at h
  obtain ⟨b, hmem, hb⟩ := h
  obtain ⟨i, hi⟩ := List.mem_iff_getElem?.mp hmem
  have hlt : i < lineSize - 1 := by
    by_contra hge
    rw [List.getElem?_eq_none (by rw [List.length_take]; omega)] at hi
    cases hi
  rw [List.getElem?_take_of_lt hlt] at hi
  have hk0 := hk i b hi (by simpa using hb)
  rw [Nat.div_eq_of_lt hlt] at hk0
  intro c hc
  by_contra hnot
  obtain ⟨j, hj⟩ := List.mem_iff_getElem?.mp hc
  rw [List.getElem?_drop] at hj
  have hkj := hk _ c hj (by simpa using hnot)
  rw [Nat.add_div_left j (by decide), ← hk0] at hkj
  exact Nat.succ_ne_zero _ hkj

/-- A beginning of the line that fits, and blanks behind it. -/
theorem onePiece_of_append {text more : List UInt8} (h : text.length ≤ lineSize - 1)
    (hmore : ∀ b ∈ more, isBlank b = true) : OnePiece (text ++ more) := by
  refine ⟨0, fun i b hi hb => Nat.div_eq_of_lt (lt_of_lt_of_le ?_ h)⟩
  by_contra hge
  rw [List.getElem?_append_right (Nat.le_of_not_lt hge)] at hi
  exact not_mem_of_blank hb hmore (List.mem_of_getElem? hi)

theorem onePiece_short (h : line.length ≤ lineSize - 1) : OnePiece line :=
  List.append_nil line ▸ onePiece_of_append h (List.forall_mem_nil _)

/-! ## The line and its pieces -/

/-- The command does not begin with a NUL. -/
theorem StoreCmd.bytes_head (cmd : StoreCmd) (w : List UInt8) : cmd.bytes ≠ 0 :: w := by
  cases cmd <;> simp [StoreCmd.bytes, ascii]

/-- Of a piece with a word in it the shell sees a word. -/
theorem words_piece_ne_nil {piece : List UInt8} (more : List UInt8) (h : 10 ∉ piece)
    (hwords : words isBlank (piece ++ more) = cmd.bytes :: name :: ws)
    (hpiece : ¬∀ b ∈ piece, isBlank b = true) :
    words isBlank (stripNewline piece).bytes ≠ [] := by
  intro hnil
  have hblank := words_eq_nil_iff.mp hnil
  have hsplit : (stripNewline piece).bytes ++ piece.dropWhile (fun b => b ≠ 0 ∧ b ≠ 10) = piece :=
    List.takeWhile_append_dropWhile
  have hhead := List.head?_dropWhile_not (fun b : UInt8 => b ≠ 0 ∧ b ≠ 10) piece
  cases hafter : piece.dropWhile (fun b => b ≠ 0 ∧ b ≠ 10) with
  | nil =>
    rw [hafter, List.append_nil] at hsplit
    exact hpiece (hsplit ▸ hblank)
  | cons b after =>
    rw [hafter] at hsplit hhead
    have hb : b = 0 := by
      have hmem : b ∈ piece := hsplit ▸ List.mem_append_right _ List.mem_cons_self
      have hne : b ≠ 10 := fun he => h (he ▸ hmem)
      by_contra h0
      simp [h0, hne] at hhead
    subst hb
    rw [← hsplit, List.append_assoc, words_append_left hblank] at hwords
    obtain ⟨w, ws', hw⟩ := words_cons_word (l := after ++ more) (show isBlank 0 = false from rfl)
    rw [List.cons_append, hw] at hwords
    exact cmd.bytes_head w (List.cons.inj hwords).1.symm

/-- A call with all words comes from a line that passes. -/
theorem passes_of_store {n d : CStr} (hwords : words isBlank line = cmd.bytes :: n.bytes :: ws)
    (hd : d.bytes = [32].intercalate ws)
    (hcall : shellLine (line.take (lineSize - 1)) = .call (.file (cmd.op n d))) :
    Passes line ws := by
  obtain ⟨ws', htake, hd', hlen⟩ := of_shellLine_store hcall
  have hpre := (stripNewline_begins (line.take (lineSize - 1))).trans (List.take_prefix _ line)
  have htext : (stripNewline (line.take (lineSize - 1))).strlen ≤ lineSize - 1 :=
    (stripNewline_begins _).length_le.trans (List.length_take_le _ _)
  have hnoNul := (stripNewline (line.take (lineSize - 1))).noNul
  rw [CStr.strlen] at htext
  generalize (stripNewline (line.take (lineSize - 1))).bytes = text at htake hpre htext hnoNul
  obtain ⟨more, rfl⟩ := hpre
  have hword : ∀ w ∈ ws, IsWord isBlank w := fun w hw => by
    have hmem : w ∈ words isBlank (text ++ more) := by
      rw [hwords]
      simp [hw]
    exact isWord_of_mem hmem
  have hword' : ∀ w ∈ ws', IsWord isBlank w := fun w hw => by
    have hmem : w ∈ (words isBlank text).take maxArgs := by
      rw [htake]
      simp [hw]
    exact isWord_of_mem (List.mem_of_mem_take hmem)
  obtain rfl : ws = ws' := intercalate_inj (a := 32) rfl hword hword' (hd ▸ hd')
  -- the words of the text already have all the bytes that are not blanks
  have hmore : ∀ b ∈ more, isBlank b = true := by
    have hall : (words isBlank text).flatten.length =
        ((words isBlank text).take maxArgs).flatten.length +
          ((words isBlank text).drop maxArgs).flatten.length := by
      rw [← List.length_append, ← List.flatten_append, List.take_append_drop]
    rw [htake, ← hwords, flatten_words, flatten_words, List.filter_append, List.length_append]
      at hall
    have hnil : more.filter (fun b => !isBlank b) = [] := List.length_eq_zero_iff.mp (by omega)
    intro b hb
    simpa using List.filter_eq_nil_iff.mp hnil b hb
  refine ⟨fun h0 => ?_, onePiece_of_append htext hmore, ?_, ?_⟩
  · obtain h0 | h0 := List.mem_append.mp h0
    · exact hnoNul h0
    · exact not_mem_of_blank rfl hmore h0
  · have hargs := List.length_take_le maxArgs (words isBlank text)
    rwa [htake] at hargs
  · rwa [CStr.strlen, hd] at hlen

theorem passes_store (h : 10 ∉ line) (hwords : words isBlank line = cmd.bytes :: name :: ws)
    (hws : ws ≠ []) (hpiece : ¬∀ b ∈ line.take (lineSize - 1), isBlank b = true)
    (hpass : Passes line ws) :
    ∃ n d : CStr, n.bytes = name ∧ d.bytes = [32].intercalate ws ∧
      shellLine (line.take (lineSize - 1)) = .call (.file (cmd.op n d)) := by
  have hdrop := hpass.onePiece.first hpiece
  have htext : (stripNewline (line.take (lineSize - 1))).bytes = line.take (lineSize - 1) :=
    stripNewline_bytes (fun h0 => hpass.noNul (List.mem_of_mem_take h0))
      fun h10 => h (List.mem_of_mem_take h10)
  refine shellLine_store ?_ hws hpass.args hpass.data
  rw [htext, ← hwords, ← words_append_right hdrop, List.take_append_drop]

/-! ## The whole line -/

/-- The next piece of a line, and what is read behind it. -/
theorem fsShell_piece (h : 10 ∉ line) (hend : Ended tail rest) :
    fsShell (line ++ tail) = (shellLine (line.take (lineSize - 1))).andThen
      (if line.length < lineSize - 1 then fsShell rest
        else fsShell (line.drop (lineSize - 1) ++ tail)) := by
  split_ifs with hlen
  · rw [fsShell_short h hlen hend, List.take_of_length_le (Nat.le_of_lt hlen)]
  · exact fsShell_long h (Nat.le_of_not_lt hlen)

theorem length_drop_lt (h : ¬line.length < lineSize - 1) :
    (line.drop (lineSize - 1)).length < line.length := by
  have hpos : 0 < lineSize - 1 := by decide
  rw [List.length_drop]
  omega

theorem fsShell_blank (h : ∀ b ∈ line, isBlank b = true) (hend : Ended tail rest) :
    fsShell (line ++ tail) = fsShell rest := by
  induction hn : line.length using Nat.strong_induction_on generalizing line with
  | _ n ih =>
    rw [fsShell_piece (not_mem_of_blank rfl h) hend,
      shellLine_blank fun b hb => h b (List.mem_of_mem_take hb), LineResult.andThen]
    split_ifs with hlen
    · rfl
    · exact ih _ (hn ▸ length_drop_lt hlen) (fun b hb => h b (List.mem_of_mem_drop hb)) rfl

theorem passes_drop_iff (h : ∀ b ∈ line.take (lineSize - 1), isBlank b = true) :
    Passes line ws ↔ Passes (line.drop (lineSize - 1)) ws := by
  have h0 : 0 ∉ line ↔ 0 ∉ line.drop (lineSize - 1) := by
    have hmem := List.mem_append (a := (0 : UInt8)) (s := line.take (lineSize - 1))
      (t := line.drop (lineSize - 1))
    rw [List.take_append_drop] at hmem
    rw [hmem, not_or, and_iff_right (not_mem_of_blank rfl h)]
  exact ⟨fun hp => ⟨h0.mp hp.noNul, (onePiece_drop h).mp hp.onePiece, hp.args, hp.data⟩,
    fun hp => ⟨h0.mpr hp.noNul, (onePiece_drop h).mpr hp.onePiece, hp.args, hp.data⟩⟩

theorem LineResult.call_of_andThen {r : LineResult} {c : ShellCall} {run run' : ShellRun}
    (h : r.andThen run = .call c run') (hne : r ≠ .next) : r = .call c := by
  cases r with
  | next => exact absurd rfl hne
  | exit => cases h
  | call c' =>
    injection h with hc
    rw [hc]
  | overflow => cases h

/-- A line is stored as typed exactly if it passes the three buffers. -/
theorem storesTyped_iff (h : 10 ∉ line) (hend : Ended tail rest)
    (hwords : words isBlank line = cmd.bytes :: name :: ws) (hws : ws ≠ []) :
    StoresTyped cmd name ws (line ++ tail) rest ↔ Passes line ws := by
  induction hn : line.length using Nat.strong_induction_on generalizing line with
  | _ n ih =>
    by_cases hpiece : ∀ b ∈ line.take (lineSize - 1), isBlank b = true
    · have hlong : ¬line.length < lineSize - 1 := fun hlt => by
        rw [List.take_of_length_le (Nat.le_of_lt hlt)] at hpiece
        rw [words_blank hpiece] at hwords
        cases hwords
      have hrest : fsShell (line ++ tail) = fsShell (line.drop (lineSize - 1) ++ tail) := by
        rw [fsShell_piece h hend, shellLine_blank hpiece, LineResult.andThen, if_neg hlong]
      have hwords' : words isBlank (line.drop (lineSize - 1)) = cmd.bytes :: name :: ws := by
        rw [← hwords, ← words_append_left hpiece, List.take_append_drop]
      rw [passes_drop_iff hpiece,
        ← ih _ (hn ▸ length_drop_lt hlong) (fun h10 => h (List.mem_of_mem_drop h10)) hwords' rfl,
        StoresTyped, hrest]
      rfl
    · constructor
      · rintro ⟨n, d, rfl, hd, hcall⟩
        refine passes_of_store hwords hd ?_
        have hne : shellLine (line.take (lineSize - 1)) ≠ .next := fun hnext =>
          words_piece_ne_nil (line.drop (lineSize - 1))
            (fun h10 => h (List.mem_of_mem_take h10)) (by rwa [List.take_append_drop]) hpiece
            (shellLine_next_iff.mp hnext)
        rw [fsShell_piece h hend] at hcall
        exact LineResult.call_of_andThen hcall hne
      · intro hpass
        obtain ⟨n, d, hn, hd, hcall⟩ := passes_store h hwords hws hpiece hpass
        refine ⟨n, d, hn, hd, ?_⟩
        rw [fsShell_piece h hend, hcall, LineResult.andThen]
        split_ifs with hlen
        · rfl
        · rw [fsShell_blank (hpass.onePiece.first hpiece) hend]

/-- `write a b` is stored. -/
theorem storesTyped_two : StoresTyped .write [97] [[98]]
    ([32].intercalate [StoreCmd.write.bytes, [97], [98]] ++ [10]) [] :=
  (storesTyped_iff (by decide) (.inl rfl) (words_intercalate rfl (by decide)) (by decide)).mpr
    ⟨by decide, onePiece_short (by decide), by decide, by decide⟩

/-- Of the fourteen words behind the name in this line the last is dropped. -/
theorem last_word_dropped :
    let ws : List (List UInt8) := List.replicate 14 [98]
    let line := [32].intercalate (StoreCmd.write.bytes :: [97] :: ws)
    10 ∉ line ∧ words isBlank line = StoreCmd.write.bytes :: [97] :: ws ∧
      ¬StoresTyped .write [97] ws (line ++ [10]) [] := by
  intro ws line
  have hwords : words isBlank line = StoreCmd.write.bytes :: [97] :: ws :=
    words_intercalate rfl (by decide)
  have htake : line.take (lineSize - 1) = line := List.take_of_length_le (by decide)
  refine ⟨by decide, hwords, ?_⟩
  rintro ⟨n, d, hn, hd, hcall⟩
  rw [fsShell_short (by decide) (by decide) (.inl rfl), ← htake] at hcall
  have hne : shellLine (line.take (lineSize - 1)) ≠ .next := fun hnext => by
    rw [htake] at hnext
    exact absurd (shellLine_next_iff.mp hnext) (by decide)
  have hpass := passes_of_store (hn ▸ hwords) hd (LineResult.call_of_andThen hcall hne)
  exact absurd hpass.args (by decide)

/-! ## The buffer of the joined text -/

/-- What `write` and `append` join of a piece fits `data` with its NUL. -/
def FitsData (piece : List UInt8) : Prop :=
  ∀ (cmd : StoreCmd) (c name : CStr) (args : List CStr),
    tokenize maxArgs (stripNewline piece) = c :: name :: args → c.bytes = cmd.bytes → args ≠ [] →
      (joinArgs args).strlen < dataSize

/-- `fgets` can place the line in the buffer. -/
def Placed (line : List UInt8) : Prop := ∃ input rest, fgets lineSize input = some (line, rest)

section Joined
variable {text c n : CStr} {args : List CStr}

theorem length_args (h : tokenize maxArgs text = c :: n :: args) :
    args.length + 2 = min maxArgs (words isBlank text.bytes).length := by
  have hlen := congrArg List.length (tokenize_bytes maxArgs text)
  rwa [h, List.length_map, List.length_take] at hlen

theorem strlen_joinArgs (args : List CStr) :
    (joinArgs args).strlen = (args.map CStr.bytes).flatten.length + (args.length - 1) := by
  rw [CStr.strlen, joinArgs_bytes, length_intercalate, List.length_map]

/-- The command, the name and a blank behind each are not joined. -/
theorem add_strlen_joinArgs_le (h : tokenize maxArgs text = c :: n :: args) (hargs : args ≠ []) :
    c.strlen + n.strlen + 2 + (joinArgs args).strlen ≤ text.strlen := by
  have htake := tokenize_bytes maxArgs text
  rw [h, List.map_cons, List.map_cons] at htake
  have hall : (words isBlank text.bytes).flatten.length =
      c.bytes.length + (n.bytes.length + (args.map CStr.bytes).flatten.length) +
        ((words isBlank text.bytes).drop maxArgs).flatten.length := by
    rw [← List.length_append, ← List.flatten_cons, ← List.length_append, ← List.flatten_cons, htake,
      ← List.length_append, ← List.flatten_append, List.take_append_drop]
  have htotal := length_eq isBlank text.bytes
  have hblanks := length_words_le isBlank text.bytes
  have hcount := length_args h
  have hpos := List.length_pos_iff.mpr hargs
  rw [strlen_joinArgs, CStr.strlen, CStr.strlen, CStr.strlen, htotal, hall]
  omega

/-- If single spaces stand between the words, and all of them are read, nothing else is left out. -/
theorem add_strlen_joinArgs (h : tokenize maxArgs text = c :: n :: args) (hargs : args ≠ [])
    (hspaced : text.bytes = [32].intercalate (words isBlank text.bytes))
    (hmany : (words isBlank text.bytes).length ≤ maxArgs) :
    c.strlen + n.strlen + 2 + (joinArgs args).strlen = text.strlen := by
  have htake := tokenize_bytes maxArgs text
  rw [h, List.take_of_length_le hmany, List.map_cons, List.map_cons] at htake
  have hpos := List.length_pos_iff.mpr hargs
  rw [← htake] at hspaced
  rw [strlen_joinArgs, CStr.strlen, CStr.strlen, CStr.strlen, hspaced, length_intercalate]
  simp only [List.flatten_cons, List.length_append, List.length_cons, List.length_map]
  omega

end Joined

/-- The text fits if the line is longer by 481 bytes at most than the command and the name. -/
theorem fitsData_of_le {piece : List UInt8}
    (hwords : words isBlank (stripNewline piece).bytes = cmd.bytes :: name :: ws)
    (hlen : (stripNewline piece).strlen ≤ cmd.bytes.length + name.length + 481) :
    FitsData piece := by
  intro cmd' c n args heq hc hargs
  have hle := add_strlen_joinArgs_le heq hargs
  have htake := tokenize_bytes maxArgs (stripNewline piece)
  rw [heq, hwords, List.map_cons, List.map_cons, List.take_succ_cons, List.take_succ_cons] at htake
  obtain ⟨hcmd, hname⟩ := List.cons.inj htake
  obtain ⟨hname, -⟩ := List.cons.inj hname
  have hsize : dataSize = 480 := rfl
  rw [CStr.strlen, CStr.strlen, hcmd, hname] at hle
  omega

/-- What does not fit is written behind the buffer. -/
theorem overflow_iff (piece : List UInt8) : shellLine piece = .overflow ↔ ¬FitsData piece := by
  constructor
  · intro h hfits
    unfold shellLine at h
    dsimp only at h
    split_ifs at h
    obtain ⟨cmd, c, n, args, heq, hc, hargs⟩ | ⟨hnot, -⟩ :=
      dispatch_cases (tokenize maxArgs (stripNewline piece))
    · rw [heq, dispatch_store hc hargs, storeArgs, if_pos (hfits cmd c n args heq hc hargs)] at h
      cases h
    · exact hnot h
  · intro hfits
    simp only [FitsData, not_forall] at hfits
    obtain ⟨cmd, c, n, args, heq, hc, hargs, hlen⟩ := hfits
    have htokens := tokenize_bytes maxArgs (stripNewline piece)
    have htwo : 1 < (words isBlank (stripNewline piece).bytes).length := by
      have hle := List.length_take_le' maxArgs (words isBlank (stripNewline piece).bytes)
      rw [← htokens, heq] at hle
      simp only [List.length_map, List.length_cons] at hle
      omega
    rw [shellLine_eq htwo, heq, dispatch_store hc hargs, storeArgs, if_neg hlen]

/-- A line of 487 bytes in front of its newline always fits. -/
theorem fitsData_of_short {piece : List UInt8} (h : (stripNewline piece).strlen ≤ 487) :
    FitsData piece := by
  intro cmd c n args heq hc hargs
  have hle := add_strlen_joinArgs_le heq hargs
  have hcmd : 5 ≤ c.strlen := by
    rw [CStr.strlen, hc]
    cases cmd <;> decide
  have hname : n.bytes ≠ [] := by
    have htake := tokenize_bytes maxArgs (stripNewline piece)
    have hmem : n.bytes ∈ (words isBlank (stripNewline piece).bytes).take maxArgs := by
      simp [← htake, heq]
    exact (isWord_of_mem (List.mem_of_mem_take hmem)).1
  have hpos : 0 < n.strlen := List.length_pos_iff.mpr hname
  have hsize : dataSize = 480 := rfl
  omega

def lettersLine (k : ℕ) : List UInt8 :=
  [32].intercalate [StoreCmd.write.bytes, [97], List.replicate k 120]

section Letters
variable {k : ℕ}

theorem lettersLine_eq (k : ℕ) :
    lettersLine k = StoreCmd.write.bytes ++ [32, 97, 32] ++ List.replicate k 120 := by
  simp [lettersLine]

theorem length_lettersLine (k : ℕ) : (lettersLine k).length = k + 8 := by
  rw [lettersLine_eq, List.length_append, List.length_replicate, Nat.add_comm]
  rfl

theorem mem_lettersLine {b : UInt8} (h : b ∈ lettersLine k) : b ≠ 0 ∧ b ≠ 10 := by
  rw [lettersLine_eq] at h
  rcases List.mem_append.mp h with hhead | hdata
  · have hall : (StoreCmd.write.bytes ++ [32, 97, 32]).all (fun b => b != 0 && b != 10) = true := rfl
    simpa using List.all_eq_true.mp hall b hhead
  · rw [List.eq_of_mem_replicate hdata]
    decide

theorem fgets_lettersLine (hk : k ≤ 503) :
    fgets lineSize (lettersLine k) = some (lettersLine k, []) := by
  have hlen := length_lettersLine k
  have hsize : lineSize = 512 := rfl
  exact fgets_last (List.ne_nil_of_length_pos (by omega)) (fun h => (mem_lettersLine h).2 rfl)
    (by omega)

theorem stripNewline_lettersLine (k : ℕ) : (stripNewline (lettersLine k)).bytes = lettersLine k :=
  stripNewline_bytes (fun h => (mem_lettersLine h).1 rfl) fun h => (mem_lettersLine h).2 rfl

theorem words_lettersLine (hk : 0 < k) : words isBlank (stripNewline (lettersLine k)).bytes =
    [StoreCmd.write.bytes, [97], List.replicate k 120] := by
  rw [stripNewline_lettersLine]
  refine words_intercalate rfl ?_
  have hlast : IsWord isBlank (List.replicate k 120) :=
    ⟨List.ne_nil_of_length_pos (by rwa [List.length_replicate]),
      fun x hx => by rw [List.eq_of_mem_replicate hx]; rfl⟩
  exact List.forall_mem_cons.mpr ⟨by decide, List.forall_mem_cons.mpr
    ⟨by decide, List.forall_mem_singleton.mpr hlast⟩⟩

theorem not_fitsData_lettersLine (hk : 480 ≤ k) : ¬FitsData (lettersLine k) := by
  intro hfits
  have htokens := tokenize_bytes maxArgs (stripNewline (lettersLine k))
  rw [words_lettersLine (by omega)] at htokens
  obtain ⟨c, argv, heq, hc, hargv⟩ := List.map_eq_cons_iff.mp htokens
  obtain ⟨n, args, rfl, -, hargs⟩ := List.map_eq_cons_iff.mp hargv
  have hdata : args.map CStr.bytes = [List.replicate k 120] := hargs
  have hfit := hfits .write c n args heq hc (by rintro rfl; simp at hdata)
  rw [CStr.strlen, joinArgs_bytes, hdata, List.intercalate_singleton, List.length_replicate] at hfit
  exact absurd hfit (not_lt.mpr hk)

end Letters

/-- All lines of at most `n` bytes, the newline apart, fit exactly if `n` is at most 487. By line,
it is enough that there are at most 481 bytes more than the command and the name have, and if the
words stand behind single spaces and all are read, only then the line fits. -/
theorem fitsData_iff_le (n : ℕ) :
    ((∀ line, Placed line → (stripNewline line).strlen ≤ n → FitsData line) ↔ n ≤ 487) ∧
    ∀ (line : List UInt8) (cmd : StoreCmd) (name : List UInt8) (ws : List (List UInt8)),
      words isBlank (stripNewline line).bytes = cmd.bytes :: name :: ws → ws ≠ [] →
      ((stripNewline line).strlen ≤ cmd.bytes.length + name.length + 481 → FitsData line) ∧
      ((stripNewline line).bytes = [32].intercalate (cmd.bytes :: name :: ws) →
        ws.length + 2 ≤ maxArgs → FitsData line →
          (stripNewline line).strlen ≤ cmd.bytes.length + name.length + 481) := by
  refine ⟨⟨fun hall => ?_, fun hn line _ hlen => fitsData_of_short (hlen.trans hn)⟩, ?_⟩
  · by_contra hlarge
    have hlen : (stripNewline (lettersLine 480)).strlen ≤ n := by
      rw [CStr.strlen, stripNewline_lettersLine, length_lettersLine]
      omega
    exact not_fitsData_lettersLine le_rfl
      (hall _ ⟨_, _, fgets_lettersLine (by norm_num)⟩ hlen)
  · intro line cmd name ws hwords hws
    refine ⟨fitsData_of_le hwords, fun hspaced hmany hfits => ?_⟩
    have htake := tokenize_bytes maxArgs (stripNewline line)
    have hlen : (words isBlank (stripNewline line).bytes).length ≤ maxArgs := by
      rw [hwords, List.length_cons, List.length_cons]
      exact hmany
    rw [List.take_of_length_le hlen, hwords] at htake
    obtain ⟨c, argv, heq, hc, hargv⟩ := List.map_eq_cons_iff.mp htake
    obtain ⟨n, args, rfl, hn, hargs⟩ := List.map_eq_cons_iff.mp hargv
    have hne : args ≠ [] := by
      rintro rfl
      exact hws (by simpa using hargs.symm)
    have hadd := add_strlen_joinArgs heq hne (hwords ▸ hspaced) hlen
    have hfit := hfits cmd c n args heq hc hne
    have hsize : dataSize = 480 := rfl
    rw [CStr.strlen, CStr.strlen, hc, hn] at hadd
    omega

/-- The longest line with `write a` that fits, and one byte more. -/
theorem fitsData_iff_le_letters :
    FitsData (lettersLine 479) ∧ ¬FitsData (lettersLine 480) := by
  have hlen (k : ℕ) : (stripNewline (lettersLine k)).strlen = k + 8 := by
    rw [CStr.strlen, stripNewline_lettersLine, length_lettersLine]
  have hspaced (k : ℕ) : (stripNewline (lettersLine k)).bytes =
      [32].intercalate [StoreCmd.write.bytes, [97], List.replicate k 120] :=
    stripNewline_lettersLine k
  obtain ⟨hfits, -⟩ :=
    (fitsData_iff_le 487).2 _ .write [97] _ (words_lettersLine (k := 479) (by norm_num))
      (List.cons_ne_nil _ _)
  obtain ⟨-, honly⟩ :=
    (fitsData_iff_le 487).2 _ .write [97] _ (words_lettersLine (k := 480) (by norm_num))
      (List.cons_ne_nil _ _)
  refine ⟨hfits ?_, fun hfit => ?_⟩
  · rw [hlen]
    decide
  · have hle := honly (hspaced 480) (by decide) hfit
    rw [hlen] at hle
    exact absurd hle (by decide)

/-- `write a` and 503 bytes fill the line, and overflow the buffer. -/
theorem longest_line_overflows :
    let line := [32].intercalate [StoreCmd.write.bytes, [97], List.replicate 503 120]
    fgets lineSize line = some (line, []) ∧ ¬FitsData line :=
  ⟨fgets_lettersLine (k := 503) le_rfl, not_fitsData_lettersLine (k := 503) (by norm_num)⟩

end MiniFs.Properties
