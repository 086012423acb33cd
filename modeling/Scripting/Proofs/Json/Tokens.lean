/-
The reader of tokens on texts that are put together of tokens. A mark is a token by itself; a word or a number ends
where a mark or the end of the text stands behind it, and what it is can be said from its characters alone; a string
literal is the token of the string that it was written for, whatever characters that has.
-/
import Scripting.Json.Parser
import Scripting.Json.Printer
import Mathlib.Data.List.Basic

namespace Scripting.Json

namespace Lexer

/-- What the reader has come to at the end of a text, if it starts behind complete tokens. -/
def ahead (cs : List Char) (ts : List Token) : Option Lexer := cs.foldlM step ⟨.between, ts⟩ >>= finish

/-- A text begins with a mark, or is at its end. -/
def Delimits (cs : List Char) : Prop := ∀ c ∈ cs.head?, (mark? c).isSome = true

theorem delimits_nil : Delimits [] := by
  intro c hc
  cases hc

theorem delimits_cons {c : Char} {t : Token} (ht : mark? c = some t) (cs : List Char) : Delimits (c :: cs) := by
  intro d hd
  cases hd
  rw [ht]
  rfl

theorem tokens?_eq (text : String) : tokens? text = (ahead text.toList []).map (·.tokens.reverse) := by
  rw [tokens?, ahead, start]
  cases text.toList.foldlM step ⟨.between, []⟩ <;> rfl

theorem ahead_cons (c : Char) (cs : List Char) (ts : List Token) :
    ahead (c :: cs) ts = begin ⟨.between, ts⟩ c >>= fun l => cs.foldlM step l >>= finish := by
  rw [ahead, List.foldlM_cons, bind_assoc]
  rfl

theorem isBlank_of_mark {c : Char} (h : (mark? c).isSome = true) : isBlank c = false := by
  unfold mark? at h
  split at h
  case h_7 => cases h
  all_goals decide

/-- A mark is a token. -/
theorem ahead_mark {c : Char} {t : Token} (ht : mark? c = some t) (cs : List Char) (ts : List Token) :
    ahead (c :: cs) ts = ahead cs (t :: ts) := by
  rw [ahead_cons, begin, isBlank_of_mark (by rw [ht]; rfl), ht]
  rfl

/-- A mark stands in no word and in no number. -/
theorem not_open_of_mark {c : Char} (h : (mark? c).isSome = true) : c.isAlpha = false ∧ isNumberChar c = false := by
  unfold mark? at h
  split at h
  case h_7 => cases h
  all_goals exact ⟨by decide, by decide⟩

/-- A character of a word or number is neither a mark nor a blank nor a quote. -/
theorem opens {c : Char} (h : c.isAlpha = true ∨ isNumberChar c = true) :
    isBlank c = false ∧ mark? c = none ∧ (c == '"') = false := by
  refine ⟨?_, ?_, ?_⟩
  · rw [← Bool.not_eq_true]
    intro hblank
    simp only [isBlank, Bool.or_eq_true, beq_iff_eq] at hblank
    rcases hblank with ((rfl | rfl) | rfl) | rfl <;> simp_all [isNumberChar]
  · cases ht : mark? c with
    | none => rfl
    | some t =>
      obtain ⟨halpha, hnumber⟩ := not_open_of_mark (c := c) (by rw [ht]; rfl)
      rw [halpha, hnumber] at h
      rcases h with h | h <;> cases h
  · rw [← Bool.not_eq_true]
    intro hquote
    rw [beq_iff_eq] at hquote
    subst hquote
    simp_all [isNumberChar]

/-- A word or number that is open ends where a mark or the end is. -/
theorem foldlM_delimited {l : Lexer} (hl : (∃ w, l.reading = .word w) ∨ ∃ w, l.reading = .number w) {cs : List Char}
    (hcs : Delimits cs) : cs.foldlM step l >>= finish = l.finish >>= fun l' => ahead cs l'.tokens := by
  -- behind the end of a token the reader is between two tokens
  have hbetween : ∀ l' ∈ l.finish, l' = ⟨.between, l'.tokens⟩ := by
    intro l' hl'
    rcases hl with ⟨w, hw⟩ | ⟨w, hw⟩ <;> rw [finish, hw] at hl' <;>
      obtain ⟨t, -, rfl⟩ := Option.map_eq_some_iff.1 hl' <;> rfl
  cases cs with
  | nil =>
    rw [List.foldlM_nil, pure_bind]
    cases hf : l.finish with
    | none => rfl
    | some l' => exact congrArg some (hbetween l' hf)
  | cons c rest =>
    obtain ⟨halpha, hnumber⟩ := not_open_of_mark (hcs c rfl)
    have hstep : l.step c = l.finish >>= (·.begin c) := by
      rcases hl with ⟨w, hw⟩ | ⟨w, hw⟩ <;> unfold step <;> rw [hw]
      · exact if_neg (by simp [halpha])
      · exact if_neg (by simp [hnumber])
    rw [List.foldlM_cons, hstep, bind_assoc, bind_assoc]
    cases hf : l.finish with
    | none => rfl
    | some l' =>
      have hl' := hbetween l' hf
      show l'.begin c >>= (fun l => rest.foldlM step l >>= finish) = ahead (c :: rest) l'.tokens
      rw [ahead_cons, ← hl']

theorem foldlM_letters {w : List Char} (hw : ∀ c ∈ w, c.isAlpha = true) (cs seen : List Char) (ts : List Token) :
    (w ++ cs).foldlM step ⟨.word seen, ts⟩ = cs.foldlM step ⟨.word (w.reverse ++ seen), ts⟩ := by
  induction w generalizing seen with
  | nil => rfl
  | cons c rest ih =>
    rw [List.forall_mem_cons] at hw
    have hstep : step ⟨.word seen, ts⟩ c = some ⟨.word (c :: seen), ts⟩ := if_pos hw.1
    rw [List.cons_append, List.foldlM_cons, hstep]
    show (rest ++ cs).foldlM step ⟨.word (c :: seen), ts⟩ = _
    rw [ih hw.2, List.reverse_cons, List.append_assoc]
    rfl

theorem foldlM_figures {w : List Char} (hw : ∀ c ∈ w, isNumberChar c = true) (cs seen : List Char) (ts : List Token) :
    (w ++ cs).foldlM step ⟨.number seen, ts⟩ = cs.foldlM step ⟨.number (w.reverse ++ seen), ts⟩ := by
  induction w generalizing seen with
  | nil => rfl
  | cons c rest ih =>
    rw [List.forall_mem_cons] at hw
    have hstep : step ⟨.number seen, ts⟩ c = some ⟨.number (c :: seen), ts⟩ := if_pos hw.1
    rw [List.cons_append, List.foldlM_cons, hstep]
    show (rest ++ cs).foldlM step ⟨.number (c :: seen), ts⟩ = _
    rw [ih hw.2, List.reverse_cons, List.append_assoc]
    rfl

theorem isNumberChar_of_figure {c : Char} (h : (c.isDigit || c == '-') = true) : isNumberChar c = true := by
  rw [isNumberChar, h]
  rfl

/-- No letter is a digit or a sign. -/
theorem not_figure_of_alpha {c : Char} (h : c.isAlpha = true) : (c.isDigit || c == '-') = false := by
  rw [← Bool.not_eq_true, Bool.or_eq_true, beq_iff_eq]
  rintro (hdigit | rfl)
  · delta Char.isAlpha Char.isUpper Char.isLower at h
    delta Char.isDigit at hdigit
    simp only [Bool.or_eq_true, Bool.and_eq_true, decide_eq_true_eq, UInt32.le_iff_toNat_le] at h hdigit
    simp at h hdigit
    omega
  · exact absurd h (by decide)

/-- A bare word is a token if it is one of the three that there are. -/
theorem ahead_word {c : Char} {w : List Char} (hc : c.isAlpha = true) (hw : ∀ c ∈ w, c.isAlpha = true) {cs : List Char}
    (hcs : Delimits cs) (ts : List Token) :
    ahead (c :: w ++ cs) ts = word? (c :: w).reverse >>= fun t => ahead cs (t :: ts) := by
  have hbegin : begin ⟨.between, ts⟩ c = some ⟨.word [c], ts⟩ := by
    obtain ⟨hb, ht, hq⟩ := opens (.inl hc)
    rw [begin, hb, ht, hq, hc, not_figure_of_alpha hc]
    rfl
  rw [List.cons_append, ahead_cons, hbegin]
  show (w ++ cs).foldlM step ⟨.word [c], ts⟩ >>= finish = _
  rw [foldlM_letters hw, foldlM_delimited (.inl ⟨_, rfl⟩) hcs, finish, List.reverse_cons]
  show Option.map _ _ >>= _ = _
  cases word? (w.reverse ++ [c]) <;> rfl

/-- Whether a text can be that of a number: a digit or a sign, and then what stands in numbers. -/
def IsFigure : List Char → Prop
  | [] => False
  | c :: rest => (c.isDigit || c == '-') = true ∧ ∀ d ∈ rest, isNumberChar d = true

/-- A number is a token if its digits are read. -/
theorem ahead_number {w : List Char} (hw : IsFigure w) {cs : List Char} (hcs : Delimits cs) (ts : List Token) :
    ahead (w ++ cs) ts = Number.read? w >>= fun n => ahead cs (.number n :: ts) := by
  cases w with
  | nil => cases hw
  | cons c w =>
    obtain ⟨hc, hw⟩ := hw
    have hbegin : begin ⟨.between, ts⟩ c = some ⟨.number [c], ts⟩ := by
      obtain ⟨hb, ht, hq⟩ := opens (.inr (isNumberChar_of_figure hc))
      rw [begin, hb, ht, hq, hc]
      rfl
    rw [List.cons_append, ahead_cons, hbegin]
    show (w ++ cs).foldlM step ⟨.number [c], ts⟩ >>= finish = _
    rw [foldlM_figures hw, foldlM_delimited (.inr ⟨_, rfl⟩) hcs, finish]
    show Option.map _ (Number.read? (w.reverse ++ [c]).reverse) >>= _ = _
    rw [List.reverse_append, List.reverse_reverse]
    show Option.map _ (Number.read? (c :: w)) >>= _ = _
    cases Number.read? (c :: w) <;> rfl

/-! ## String literals -/

theorem hexDigit?_digitChar : ∀ d < 16, hexDigit? (Nat.digitChar d) = some d := by decide

theorem hexPadded_control : ∀ n < 0x20,
    (Text.hexPadded 4 n).toList = ['0', '0', Nat.digitChar (n / 16), Nat.digitChar (n % 16)] := by decide

/-- The code of a control character is read as that character. -/
theorem foldlM_control {n : Nat} (hn : n < 0x20) (cs seen : List Char) (ts : List Token) :
    (('\\' :: 'u' :: '0' :: '0' :: Nat.digitChar (n / 16) :: Nat.digitChar (n % 16) :: cs).foldlM step
      ⟨.string seen, ts⟩) = cs.foldlM step ⟨.string (Char.ofNat n :: seen), ts⟩ := by
  have hhigh : step ⟨.code seen none 2 0, ts⟩ (Nat.digitChar (n / 16)) = some ⟨.code seen none 1 (n / 16), ts⟩ := by
    show hexDigit? _ >>= _ = _
    rw [hexDigit?_digitChar _ (by omega)]
    show some _ = some _
    rw [Nat.zero_mul, Nat.zero_add]
  have hcoded : coded? seen none n = some (.string (Char.ofNat n :: seen)) := by
    have hlow : (decide (0xDC00 ≤ n) && decide (n < 0xE000)) = false := by
      rw [decide_eq_false (by omega), Bool.false_and]
    unfold coded?
    simp only
    rw [hlow, if_neg Bool.false_ne_true, if_neg (by omega)]
  have hlow : step ⟨.code seen none 1 (n / 16), ts⟩ (Nat.digitChar (n % 16)) =
      some ⟨.string (Char.ofNat n :: seen), ts⟩ := by
    show hexDigit? _ >>= _ = _
    rw [hexDigit?_digitChar _ (Nat.mod_lt n (by decide))]
    show Option.map _ (coded? seen none (n / 16 * 16 + n % 16)) = _
    rw [Nat.div_add_mod', hcoded]
    rfl
  show step ⟨.code seen none 2 0, ts⟩ (Nat.digitChar (n / 16)) >>= _ = _
  rw [hhigh]
  show step ⟨.code seen none 1 (n / 16), ts⟩ (Nat.digitChar (n % 16)) >>= _ = _
  rw [hlow]
  rfl

/-- A character that is written in a literal is read as itself. -/
theorem foldlM_escapedChar (c : Char) (cs seen : List Char) (ts : List Token) :
    ((escapedChar c).toList ++ cs).foldlM step ⟨.string seen, ts⟩ = cs.foldlM step ⟨.string (c :: seen), ts⟩ := by
  unfold escapedChar
  split
  · rfl
  · rfl
  · rfl
  · rfl
  · rfl
  · rename_i hquote hslash _ _ _
    split_ifs with hback hfeed hcontrol
    · rw [← Char.ofNat_toNat c, hback]
      rfl
    · rw [← Char.ofNat_toNat c, hfeed]
      rfl
    · rw [String.toList_append, hexPadded_control _ hcontrol]
      have hread := foldlM_control hcontrol cs seen ts
      rw [Char.ofNat_toNat] at hread
      exact hread
    · have hstep : step ⟨.string seen, ts⟩ c = some ⟨.string (c :: seen), ts⟩ := by
        show (if (c == '"') = true then _ else if (c == '\\') = true then _ else if c.toNat < 0x20 then _ else _) = _
        rw [if_neg (by simpa using hquote), if_neg (by simpa using hslash), if_neg hcontrol]
      rw [Char.toString_eq_singleton, String.toList_singleton, List.cons_append, List.foldlM_cons, hstep]
      rfl

theorem foldlM_escaped (w cs seen : List Char) (ts : List Token) :
    ((w.flatMap fun c => (escapedChar c).toList) ++ cs).foldlM step ⟨.string seen, ts⟩ =
      cs.foldlM step ⟨.string (w.reverse ++ seen), ts⟩ := by
  induction w generalizing seen with
  | nil => rfl
  | cons c rest ih =>
    rw [List.flatMap_cons, List.append_assoc, foldlM_escapedChar, ih, List.reverse_cons, List.append_assoc]
    rfl

/-- A literal is the token of its string. -/
theorem ahead_stringText (s : String) (cs : List Char) (ts : List Token) :
    ahead ((stringText s).toList ++ cs) ts = ahead cs (.string s :: ts) := by
  have htext : (stringText s).toList = '"' :: ((s.toList.flatMap fun c => (escapedChar c).toList) ++ ['"']) := by
    rw [stringText, String.toList_append, String.toList_append, String.toList_join, List.flatMap_map]
    rfl
  rw [htext, List.cons_append, ahead_cons]
  show List.foldlM step ⟨.string [], ts⟩ _ >>= finish = _
  rw [List.append_assoc, foldlM_escaped, List.append_nil]
  show List.foldlM step ⟨.between, .string (String.ofList s.toList.reverse.reverse) :: ts⟩ cs >>= finish = _
  rw [List.reverse_reverse, String.ofList_toList]
  rfl

end Lexer

end Scripting.Json
