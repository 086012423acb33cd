/-
Trees read from their own texts. Behind the text of a tree the reader of tokens stands where it stood before, with
the tokens of the tree behind those that it had, and the reader of trees makes that tree of them if the stack has
room for it. What comes back is the tree with every number as its digits are read, or nothing where a number cannot
be read or too many containers are open at once.
-/
import Scripting.Proofs.Json.Numbers

namespace Scripting.Json

/-! ## Tokens -/

section

variable (l : Decimal.Layout)

mutual

/-- A tree with every number as its text is read; none where a number cannot be. -/
def reread? : Json → Option Json
  | .number n => .number <$> n.reread? l
  | .array items => .array <$> rereadItems? items
  | .object members => .object <$> rereadMembers? members
  | j => some j

def rereadItems? : List Json → Option (List Json)
  | [] => some []
  | j :: rest => j.reread? >>= fun k => (k :: ·) <$> rereadItems? rest

def rereadMembers? : List (String × Json) → Option (List (String × Json))
  | [] => some []
  | (name, j) :: rest => j.reread? >>= fun k => ((name, k) :: ·) <$> rereadMembers? rest

end

end

mutual

/-- The tokens of a tree. -/
def tokens : Json → List Token
  | .null => [.null]
  | .bool b => [.bool b]
  | .number n => [.number n]
  | .string s => [.string s]
  | .array items => .openBracket :: (itemsTokens items ++ [.closeBracket])
  | .object members => .openBrace :: (membersTokens members ++ [.closeBrace])

def itemsTokens : List Json → List Token
  | [] => []
  | [item] => item.tokens
  | item :: rest => item.tokens ++ .comma :: itemsTokens rest

def membersTokens : List (String × Json) → List Token
  | [] => []
  | [(name, value)] => .string name :: .colon :: value.tokens
  | (name, value) :: rest => .string name :: .colon :: (value.tokens ++ .comma :: membersTokens rest)

end

mutual

/-- How many containers of a tree are open at once. -/
def depth : Json → Nat
  | .array items => depthOfItems items + 1
  | .object members => depthOfMembers members + 1
  | _ => 0

def depthOfItems : List Json → Nat
  | [] => 0
  | j :: rest => max j.depth (depthOfItems rest)

def depthOfMembers : List (String × Json) → Nat
  | [] => 0
  | (_, j) :: rest => max j.depth (depthOfMembers rest)

end

/-! ## What is read -/

/-- The members of an object are in order, each once. -/
def IsSorted : Json → Prop
  | .object members => Assoc.Ascending members
  | _ => True

section

variable {l : Decimal.Layout}

/-- Items that are read are as many as were written. -/
theorem length_rereadItems? {items ks : List Json} (h : rereadItems? l items = some ks) : ks.length = items.length := by
  induction items generalizing ks with
  | nil =>
    cases h
    rfl
  | cons j rest ih =>
    obtain ⟨k, -, hks⟩ := Option.bind_eq_some_iff.1 h
    obtain ⟨ks, hrest, rfl⟩ := Option.map_eq_some_iff.1 hks
    rw [List.length_cons, ih hrest, List.length_cons]

/-- Members that are read have the names that were written. -/
theorem keys_rereadMembers? {members ks : List (String × Json)} (h : rereadMembers? l members = some ks) :
    Assoc.keys ks = Assoc.keys members := by
  induction members generalizing ks with
  | nil =>
    cases h
    rfl
  | cons m rest ih =>
    obtain ⟨name, j⟩ := m
    obtain ⟨k, -, hks⟩ := Option.bind_eq_some_iff.1 h
    obtain ⟨ks, hrest, rfl⟩ := Option.map_eq_some_iff.1 hks
    exact congrArg (name :: ·) (ih hrest)

mutual

/-- What is read of a tree has its members in order and is nested as it was. -/
theorem sorted_of_reread? : ∀ j : Json, j.All IsRegular → ∀ {k : Json}, j.reread? l = some k →
    k.All IsSorted ∧ k.depth = j.depth
  | .null, _, _, hk | .bool _, _, _, hk | .string _, _, _, hk => by
    cases hk
    exact ⟨trivial, rfl⟩
  | .number n, _, _, hk => by
    obtain ⟨n', -, rfl⟩ := Option.map_eq_some_iff.1 hk
    exact ⟨trivial, rfl⟩
  | .array items, h, _, hk => by
    obtain ⟨ks, hks, rfl⟩ := Option.map_eq_some_iff.1 hk
    obtain ⟨hsorted, hdepth⟩ := sorted_of_rereadItems? items h.2 hks
    exact ⟨⟨trivial, hsorted⟩, congrArg (· + 1) hdepth⟩
  | .object members, h, _, hk => by
    obtain ⟨ks, hks, rfl⟩ := Option.map_eq_some_iff.1 hk
    obtain ⟨hsorted, hdepth⟩ := sorted_of_rereadMembers? members h.2 hks
    refine ⟨⟨?_, hsorted⟩, congrArg (· + 1) hdepth⟩
    show (Assoc.keys ks).Pairwise _
    rw [keys_rereadMembers? hks]
    exact h.1

theorem sorted_of_rereadItems? : ∀ items : List Json, AllItems IsRegular items → ∀ {ks : List Json},
    rereadItems? l items = some ks → AllItems IsSorted ks ∧ depthOfItems ks = depthOfItems items
  | [], _, _, hks => by
    cases hks
    exact ⟨trivial, rfl⟩
  | j :: rest, h, _, hks => by
    obtain ⟨k, hk, hks⟩ := Option.bind_eq_some_iff.1 hks
    obtain ⟨ks, hrest, rfl⟩ := Option.map_eq_some_iff.1 hks
    obtain ⟨hk, hdepth⟩ := sorted_of_reread? j h.1 hk
    obtain ⟨hks, hdepths⟩ := sorted_of_rereadItems? rest h.2 hrest
    exact ⟨⟨hk, hks⟩, congrArg₂ max hdepth hdepths⟩

theorem sorted_of_rereadMembers? : ∀ members : List (String × Json), AllMembers IsRegular members →
    ∀ {ks : List (String × Json)}, rereadMembers? l members = some ks →
    AllMembers IsSorted ks ∧ depthOfMembers ks = depthOfMembers members
  | [], _, _, hks => by
    cases hks
    exact ⟨trivial, rfl⟩
  | (name, j) :: rest, h, _, hks => by
    obtain ⟨k, hk, hks⟩ := Option.bind_eq_some_iff.1 hks
    obtain ⟨ks, hrest, rfl⟩ := Option.map_eq_some_iff.1 hks
    obtain ⟨hk, hdepth⟩ := sorted_of_reread? j h.1 hk
    obtain ⟨hks, hdepths⟩ := sorted_of_rereadMembers? rest h.2 hrest
    exact ⟨⟨hk, hks⟩, congrArg₂ max hdepth hdepths⟩

end

end

/-! ## The tokens of a text -/

open Lexer (mark? ahead Delimits delimits_cons ahead_mark ahead_word ahead_number ahead_stringText)

/-- A number is written as one token. -/
theorem isFigure_text {n : Number} (hn : (Json.number n).All IsRegular) : Lexer.IsFigure n.text.toList := by
  cases n with
  | int i =>
    rw [Number.text, Int.toString_eq_repr, Int.repr_eq_if]
    have hdigits (m : Nat) : Lexer.IsFigure (Nat.toDigits 10 m) := by
      have hfigure := isFigure_append (isDigit_of_mem_toDigits (n := m)) Nat.toDigits_ne_nil [] (by simp)
      rwa [List.append_nil] at hfigure
    split
    · rw [Nat.toList_repr]
      exact hdigits _
    · rw [String.toList_append, Nat.toList_repr]
      exact isFigure_signed (hdigits _) true
  | float x => exact Decimal.isFigure_write numberLayout hn

theorem itemsTokens_cons (k : Json) {ks : List Json} (h : ks ≠ []) :
    itemsTokens (k :: ks) = k.tokens ++ .comma :: itemsTokens ks := by
  cases ks with
  | nil => exact absurd rfl h
  | cons k' ks => rfl

theorem membersTokens_cons (name : String) (k : Json) {ks : List (String × Json)} (h : ks ≠ []) :
    membersTokens ((name, k) :: ks) = .string name :: .colon :: (k.tokens ++ .comma :: membersTokens ks) := by
  cases ks with
  | nil => exact absurd rfl h
  | cons k' ks => rfl

mutual

/-- Behind the text of a tree are its tokens, with its numbers as they are read. -/
theorem ahead_text : ∀ j : Json, j.All IsRegular → ∀ {cs : List Char}, Delimits cs → ∀ ts : List Token,
    ahead (j.text.toList ++ cs) ts = j.reread? numberLayout >>= fun k => ahead cs (k.tokens.reverse ++ ts)
  | .null, _, cs, hcs, ts =>
    ahead_word (c := 'n') (w := ['u', 'l', 'l']) (by decide) (List.all_eq_true.1 rfl) hcs ts
  | .bool true, _, cs, hcs, ts =>
    ahead_word (c := 't') (w := ['r', 'u', 'e']) (by decide) (List.all_eq_true.1 rfl) hcs ts
  | .bool false, _, cs, hcs, ts =>
    ahead_word (c := 'f') (w := ['a', 'l', 's', 'e']) (by decide) (List.all_eq_true.1 rfl) hcs ts
  | .number n, h, cs, hcs, ts => by
    rw [text, ahead_number (isFigure_text h) hcs, reread?, Number.reread?,
      n.text_eq]
    cases Number.read? (n.textIn numberLayout).toList <;> rfl
  | .string s, _, cs, hcs, ts => ahead_stringText s cs ts
  | .array items, h, cs, hcs, ts => by
    have hopen : mark? '[' = some .openBracket := rfl
    have hclose : mark? ']' = some .closeBracket := rfl
    rw [text, String.toList_append, String.toList_append, List.append_assoc, List.append_assoc]
    show ahead ('[' :: ((itemsText items).toList ++ ']' :: cs)) ts = _
    rw [ahead_mark hopen, ahead_itemsText items h.2 (delimits_cons hclose cs), reread?]
    cases hitems : rereadItems? numberLayout items with
    | none => rfl
    | some ks =>
      show ahead (']' :: cs) _ = ahead cs ((tokens (.array ks)).reverse ++ ts)
      rw [ahead_mark hclose, tokens]
      simp
  | .object members, h, cs, hcs, ts => by
    have hopen : mark? '{' = some .openBrace := rfl
    have hclose : mark? '}' = some .closeBrace := rfl
    rw [text, String.toList_append, String.toList_append, List.append_assoc, List.append_assoc]
    show ahead ('{' :: ((membersText members).toList ++ '}' :: cs)) ts = _
    rw [ahead_mark hopen, ahead_membersText members h.2 (delimits_cons hclose cs), reread?]
    cases hmembers : rereadMembers? numberLayout members with
    | none => rfl
    | some ks =>
      show ahead ('}' :: cs) _ = ahead cs ((tokens (.object ks)).reverse ++ ts)
      rw [ahead_mark hclose, tokens]
      simp

theorem ahead_itemsText : ∀ items : List Json, AllItems IsRegular items → ∀ {cs : List Char}, Delimits cs →
    ∀ ts : List Token, ahead ((itemsText items).toList ++ cs) ts =
      rereadItems? numberLayout items >>= fun ks => ahead cs ((itemsTokens ks).reverse ++ ts)
  | [], _, cs, _, ts => rfl
  | [item], h, cs, hcs, ts => by
    rw [itemsText, ahead_text item h.1 hcs, rereadItems?]
    cases item.reread? numberLayout <;> rfl
  | item :: item' :: rest, h, cs, hcs, ts => by
    have hcomma : mark? ',' = some .comma := rfl
    rw [itemsText, String.toList_append, String.toList_append, List.append_assoc, List.append_assoc]
    · show ahead (item.text.toList ++ ',' :: ((itemsText (item' :: rest)).toList ++ cs)) ts = _
      rw [ahead_text item h.1 (delimits_cons hcomma _), rereadItems?]
      cases item.reread? numberLayout with
      | none => rfl
      | some k =>
        show ahead (',' :: _) _ = (k :: ·) <$> rereadItems? numberLayout (item' :: rest) >>= _
        rw [ahead_mark hcomma, ahead_itemsText (item' :: rest) h.2 hcs]
        cases hrest : rereadItems? numberLayout (item' :: rest) with
        | none => rfl
        | some ks =>
          have hne : ks ≠ [] := by
            rintro rfl
            cases length_rereadItems? hrest
          show ahead cs _ = ahead cs ((itemsTokens (k :: ks)).reverse ++ ts)
          rw [itemsTokens_cons k hne]
          simp
    · simp

theorem ahead_membersText : ∀ members : List (String × Json), AllMembers IsRegular members →
    ∀ {cs : List Char}, Delimits cs → ∀ ts : List Token, ahead ((membersText members).toList ++ cs) ts =
      rereadMembers? numberLayout members >>= fun ks => ahead cs ((membersTokens ks).reverse ++ ts)
  | [], _, cs, _, ts => rfl
  | [(name, value)], h, cs, hcs, ts => by
    have hcolon : mark? ':' = some .colon := rfl
    rw [membersText, String.toList_append, String.toList_append, List.append_assoc, List.append_assoc,
      ahead_stringText]
    show ahead (':' :: (value.text.toList ++ cs)) _ = _
    rw [ahead_mark hcolon, ahead_text value h.1 hcs, rereadMembers?]
    cases value.reread? numberLayout with
    | none => rfl
    | some k =>
      show ahead cs _ = ahead cs ((membersTokens [(name, k)]).reverse ++ ts)
      rw [membersTokens]
      simp
  | (name, value) :: m :: rest, h, cs, hcs, ts => by
    have hcolon : mark? ':' = some .colon := rfl
    have hcomma : mark? ',' = some .comma := rfl
    rw [membersText, String.toList_append, String.toList_append, String.toList_append, String.toList_append,
      List.append_assoc, List.append_assoc, List.append_assoc, List.append_assoc, ahead_stringText]
    · show ahead (':' :: (value.text.toList ++ ',' :: ((membersText (m :: rest)).toList ++ cs))) _ = _
      rw [ahead_mark hcolon, ahead_text value h.1 (delimits_cons hcomma _), rereadMembers?]
      cases value.reread? numberLayout with
      | none => rfl
      | some k =>
        show ahead (',' :: _) _ = ((name, k) :: ·) <$> rereadMembers? numberLayout (m :: rest) >>= _
        rw [ahead_mark hcomma, ahead_membersText (m :: rest) h.2 hcs]
        cases hrest : rereadMembers? numberLayout (m :: rest) with
        | none => rfl
        | some ks =>
          have hne : ks ≠ [] := by
            rintro rfl
            cases keys_rereadMembers? hrest
          show ahead cs _ = ahead cs ((membersTokens ((name, k) :: ks)).reverse ++ ts)
          rw [membersTokens_cons name k hne]
          simp
    · simp

end

/-! ## The tree of the tokens -/

open Progress (depthLimit)

mutual

/-- Where a value may stand, the tokens of a tree lead to that tree if there is room for it on the stack. -/
theorem foldlM_tokens : ∀ k : Json, k.All IsSorted → ∀ (first : Bool) {stack : List Frame},
    stack.length ≤ depthLimit → ∀ rest : List Token,
    (k.tokens ++ rest).foldlM Progress.step (.value first stack) =
      if stack.length + k.depth ≤ depthLimit then rest.foldlM Progress.step (.after k stack) else none
  | .null, _, first, stack, hroom, rest | .bool _, _, first, stack, hroom, rest
  | .number _, _, first, stack, hroom, rest | .string _, _, first, stack, hroom, rest => (if_pos hroom).symm
  | .array items, h, first, stack, hroom, rest => by
    rw [tokens, List.cons_append, List.foldlM_cons, List.append_assoc, depth, ← Nat.add_assoc]
    show (if stack.length < depthLimit then some (Progress.value true (.array [] :: stack)) else none) >>= _ = _
    split
    · rename_i hlt
      show (itemsTokens items ++ .closeBracket :: rest).foldlM Progress.step (.value true (.array [] :: stack)) = _
      cases items with
      | nil => exact (if_pos hlt).symm
      | cons j items => exact foldlM_itemsTokens (j :: items) h.2 (List.cons_ne_nil _ _) true [] hlt rest
    · exact (if_neg (by omega)).symm
  | .object members, h, first, stack, hroom, rest => by
    rw [tokens, List.cons_append, List.foldlM_cons, List.append_assoc, depth, ← Nat.add_assoc]
    show (if stack.length < depthLimit then some (Progress.memberName true [] stack) else none) >>= _ = _
    split
    · rename_i hlt
      show (membersTokens members ++ .closeBrace :: rest).foldlM Progress.step (.memberName true [] stack) = _
      cases members with
      | nil => exact (if_pos hlt).symm
      | cons m members =>
        have hsorted : (m :: members).foldl (fun done e => Assoc.insert e.1 e.2 done) [] = m :: members :=
          Assoc.ofList_of_ascending h.1
        rw [foldlM_membersTokens (m :: members) h.2 (List.cons_ne_nil _ _) true [] hlt rest, hsorted]
    · exact (if_neg (by omega)).symm

theorem foldlM_itemsTokens : ∀ items : List Json, AllItems IsSorted items → items ≠ [] → ∀ (first : Bool)
    (done : List Json) {stack : List Frame}, stack.length < depthLimit → ∀ rest : List Token,
    (itemsTokens items ++ .closeBracket :: rest).foldlM Progress.step (.value first (.array done :: stack)) =
      if stack.length + depthOfItems items + 1 ≤ depthLimit then
        rest.foldlM Progress.step (.after (.array (done.reverse ++ items)) stack)
      else none
  | [], _, hne, _, _, _, _, _ => absurd rfl hne
  | [item], h, _, first, done, stack, hlt, rest => by
    rw [itemsTokens, foldlM_tokens item h.1 first (by exact hlt), depthOfItems, depthOfItems, Nat.max_zero,
      List.length_cons, Nat.add_right_comm]
    refine if_congr Iff.rfl ?_ rfl
    show rest.foldlM Progress.step (.after (.array (item :: done).reverse) stack) = _
    rw [List.reverse_cons]
  | item :: item' :: items, h, _, first, done, stack, hlt, rest => by
    have hbelow := foldlM_itemsTokens (item' :: items) h.2 (List.cons_ne_nil _ _) false (item :: done) hlt rest
    rw [itemsTokens_cons item (List.cons_ne_nil _ _), List.append_assoc, foldlM_tokens item h.1 first (by exact hlt),
      depthOfItems, List.length_cons, List.cons_append]
    show (if _ then (itemsTokens (item' :: items) ++ Token.closeBracket :: rest).foldlM Progress.step
      (.value false (.array (item :: done) :: stack)) else none) = _
    rw [hbelow, List.reverse_cons, List.append_assoc]
    show _ = if _ then rest.foldlM Progress.step (.after (.array (done.reverse ++ item :: item' :: items)) stack) else _
    split
    · split
      · rw [if_pos (by omega)]
        rfl
      · rw [if_neg (by omega)]
    · rw [if_neg (by omega)]

theorem foldlM_membersTokens : ∀ members : List (String × Json), AllMembers IsSorted members → members ≠ [] →
    ∀ (first : Bool) (done : List (String × Json)) {stack : List Frame}, stack.length < depthLimit →
    ∀ rest : List Token,
    (membersTokens members ++ .closeBrace :: rest).foldlM Progress.step (.memberName first done stack) =
      if stack.length + depthOfMembers members + 1 ≤ depthLimit then
        rest.foldlM Progress.step
          (.after (.object (members.foldl (fun done e => Assoc.insert e.1 e.2 done) done)) stack)
      else none
  | [], _, hne, _, _, _, _, _ => absurd rfl hne
  | [(name, value)], h, _, first, done, stack, hlt, rest => by
    show (value.tokens ++ .closeBrace :: rest).foldlM Progress.step (.value false (.object done name :: stack)) = _
    rw [foldlM_tokens value h.1 false (by exact hlt), depthOfMembers, depthOfMembers, Nat.max_zero,
      List.length_cons, Nat.add_right_comm]
    rfl
  | (name, value) :: m :: members, h, _, first, done, stack, hlt, rest => by
    have hbelow := foldlM_membersTokens (m :: members) h.2 (List.cons_ne_nil _ _) false
      (Assoc.insert name value done) hlt rest
    rw [membersTokens_cons name value (List.cons_ne_nil _ _)]
    show ((value.tokens ++ .comma :: membersTokens (m :: members)) ++ .closeBrace :: rest).foldlM Progress.step
      (.value false (.object done name :: stack)) = _
    rw [List.append_assoc, foldlM_tokens value h.1 false (by exact hlt), depthOfMembers, List.length_cons,
      List.cons_append, List.foldl_cons]
    show (if _ then (membersTokens (m :: members) ++ Token.closeBrace :: rest).foldlM Progress.step
      (.memberName false (Assoc.insert name value done) stack) else none) = _
    rw [hbelow]
    split
    · split
      · rw [if_pos (by omega)]
      · rw [if_neg (by omega)]
    · rw [if_neg (by omega)]

end

/-- A tree is read from its text with every number as its digits are read, unless it is nested too deep. -/
theorem parse?_text {j : Json} (h : j.All IsRegular) :
    parse? j.text = if j.depth ≤ depthLimit then j.reread? numberLayout else none := by
  have htokens : tokens? j.text = (j.reread? numberLayout).map tokens := by
    have hahead := ahead_text j h Lexer.delimits_nil []
    rw [List.append_nil] at hahead
    rw [Lexer.tokens?_eq, hahead]
    cases j.reread? numberLayout with
    | none => rfl
    | some k =>
      show some (k.tokens.reverse ++ []).reverse = some k.tokens
      rw [List.append_nil, List.reverse_reverse]
  rw [parse?, htokens]
  cases hk : j.reread? numberLayout with
  | none => exact (ite_self _).symm
  | some k =>
    obtain ⟨hsorted, hdepth⟩ := sorted_of_reread? j h hk
    have hroom : ([] : List Frame).length ≤ depthLimit := Nat.zero_le _
    have hfold := foldlM_tokens k hsorted false hroom []
    rw [List.append_nil, List.length_nil, Nat.zero_add, hdepth] at hfold
    show k.tokens.foldlM Progress.step (.value false []) >>= Progress.result? = _
    rw [hfold]
    split <;> rfl

end Scripting.Json
