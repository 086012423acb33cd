/-
What is posted of a value, and what is read of it. A value that is no text is posted as its own text, and a message
gives its parameters back as the tree of their text. That is the tree of the value with every number as its digits are
read, if it is not nested too deep; so it is the tree of the value up to how numbers are written exactly if every
number in it is read as what it was.
-/
import Scripting.Proofs.Json.Text
import Scripting.Proofs.Json.Range
import Scripting.Library.Basic
import Scripting.Message.Basic

namespace Scripting

namespace Json

/-! ## Trees that are alike -/

mutual

/-- Two trees are the same but for the forms of numbers that are worth the same. -/
def Alike : Json → Json → Prop
  | .null, .null => True
  | .bool b, .bool b' => b = b'
  | .number n, .number n' => n.worth = n'.worth
  | .string s, .string s' => s = s'
  | .array items, .array items' => AlikeItems items items'
  | .object members, .object members' => AlikeMembers members members'
  | _, _ => False

def AlikeItems : List Json → List Json → Prop
  | [], [] => True
  | j :: rest, j' :: rest' => Alike j j' ∧ AlikeItems rest rest'
  | _, _ => False

def AlikeMembers : List (String × Json) → List (String × Json) → Prop
  | [], [] => True
  | (name, j) :: rest, (name', j') :: rest' => name = name' ∧ Alike j j' ∧ AlikeMembers rest rest'
  | _, _ => False

end

section

variable (l : Decimal.Layout)

/-- A number is read from its text as what it was. -/
def Returns : Json → Prop
  | .number n => ∃ n' ∈ n.reread? l, n'.worth = n.worth
  | _ => True

variable {l}

mutual

/-- What is read of a tree is like it exactly if all its numbers are read as what they were. -/
theorem alike_reread?_iff : ∀ j : Json, (∃ k ∈ j.reread? l, k.Alike j) ↔ j.All (Returns l)
  | .null | .bool _ | .string _ => by simp [reread?, Alike, All, Returns]
  | .number n => by simp [reread?, Alike, All, Returns]
  | .array items => by
    show _ ↔ True ∧ AllItems (Returns l) items
    rw [← alikeItems_reread?_iff items, true_and]
    simp [reread?, Alike]
  | .object members => by
    show _ ↔ True ∧ AllMembers (Returns l) members
    rw [← alikeMembers_reread?_iff members, true_and]
    simp [reread?, Alike]

theorem alikeItems_reread?_iff : ∀ items : List Json,
    (∃ ks ∈ rereadItems? l items, AlikeItems ks items) ↔ AllItems (Returns l) items
  | [] => by simp [rereadItems?, AlikeItems, AllItems]
  | j :: rest => by
    rw [AllItems, ← alike_reread?_iff j, ← alikeItems_reread?_iff rest]
    constructor
    · rintro ⟨ks, hks, halike⟩
      obtain ⟨k, hk, hks⟩ := Option.bind_eq_some_iff.1 hks
      obtain ⟨ks, hrest, rfl⟩ := Option.map_eq_some_iff.1 hks
      exact ⟨⟨k, hk, halike.1⟩, ks, hrest, halike.2⟩
    · rintro ⟨⟨k, hk, hj⟩, ks, hrest, halike⟩
      refine ⟨k :: ks, ?_, hj, halike⟩
      exact Option.bind_eq_some_iff.2 ⟨k, hk, Option.map_eq_some_iff.2 ⟨ks, hrest, rfl⟩⟩

theorem alikeMembers_reread?_iff : ∀ members : List (String × Json),
    (∃ ks ∈ rereadMembers? l members, AlikeMembers ks members) ↔ AllMembers (Returns l) members
  | [] => by simp [rereadMembers?, AlikeMembers, AllMembers]
  | (name, j) :: rest => by
    rw [AllMembers, ← alike_reread?_iff j, ← alikeMembers_reread?_iff rest]
    constructor
    · rintro ⟨ks, hks, halike⟩
      obtain ⟨k, hk, hks⟩ := Option.bind_eq_some_iff.1 hks
      obtain ⟨ks, hrest, rfl⟩ := Option.map_eq_some_iff.1 hks
      exact ⟨⟨k, hk, halike.2.1⟩, ks, hrest, halike.2.2⟩
    · rintro ⟨⟨k, hk, hj⟩, ks, hrest, halike⟩
      refine ⟨(name, k) :: ks, ?_, rfl, hj, halike⟩
      exact Option.bind_eq_some_iff.2 ⟨k, hk, Option.map_eq_some_iff.2 ⟨ks, hrest, rfl⟩⟩

end

end

/-! ## Trees that are read -/

/-- A number is an integer or a short double. -/
def HasShort : Json → Prop
  | .number (.float x) => IsShort x
  | _ => True

variable {l : Decimal.Layout}

mutual

/-- A tree without numbers past the range is read. -/
theorem isSome_reread? : ∀ {j : Json}, j.All IsRegular → (j.reread? numberLayout).isSome = true
  | .null, _ | .bool _, _ | .string _, _ => rfl
  | .number (.int i), h => by
    rw [reread?, reread?_int numberLayout h]
    rfl
  | .number (.float x), h => by
    have hread := (isSome_read?_write h (.inr rfl)).2 fun hplain => by cases congrArg Decimal.Layout.pointZero hplain.1
    rw [reread?, Option.map_eq_map, Option.isSome_map]
    exact hread
  | .array items, h => by
    rw [reread?, Option.map_eq_map, Option.isSome_map]
    exact isSome_rereadItems? h.2
  | .object members, h => by
    rw [reread?, Option.map_eq_map, Option.isSome_map]
    exact isSome_rereadMembers? h.2

theorem isSome_rereadItems? : ∀ {items : List Json}, AllItems IsRegular items →
    (rereadItems? numberLayout items).isSome = true
  | [], _ => rfl
  | j :: rest, h => by
    obtain ⟨k, hk⟩ := Option.isSome_iff_exists.1 (isSome_reread? h.1)
    obtain ⟨ks, hks⟩ := Option.isSome_iff_exists.1 (isSome_rereadItems? h.2)
    rw [rereadItems?, hk, hks]
    rfl

theorem isSome_rereadMembers? : ∀ {members : List (String × Json)}, AllMembers IsRegular members →
    (rereadMembers? numberLayout members).isSome = true
  | [], _ => rfl
  | (name, j) :: rest, h => by
    obtain ⟨k, hk⟩ := Option.isSome_iff_exists.1 (isSome_reread? h.1)
    obtain ⟨ks, hks⟩ := Option.isSome_iff_exists.1 (isSome_rereadMembers? h.2)
    rw [rereadMembers?, hk, hks]
    rfl

end

/-- Integers and short doubles are read as what they were. -/
theorem returns_of_short (hl : l = Decimal.plain ∨ l = numberLayout) (j : Json) (hregular : IsRegular j)
    (hshort : HasShort j) : Returns l j := by
  cases j with
  | number n =>
    cases n with
    | int i => exact ⟨.int i, reread?_int l hregular, rfl⟩
    | float x => exact readsAs_of_short hregular hshort hl
  | _ => trivial

/-- The text of a number alone is read as that number. -/
theorem parse?_figure {s : String} (h : Lexer.IsFigure s.toList) : parse? s = .number <$> Number.read? s.toList := by
  have hahead := Lexer.ahead_number h Lexer.delimits_nil []
  rw [List.append_nil] at hahead
  rw [parse?, Lexer.tokens?_eq, hahead]
  cases Number.read? s.toList <;> rfl

end Json

namespace Value

mutual

/-- The tree of a value has integers of 64 bits, finite doubles and members in order. -/
theorem toJson_regular : ∀ v : Value, v.toJson.All Json.IsRegular
  | .void | .bool _ | .string _ => trivial
  | .int i => by
    show (int64? i.toInt).isSome = true
    rw [int64?_toInt]
    rfl
  | .float x => by
    rw [toJson]
    split
    · rename_i h
      exact h
    · trivial
  | .record typeName fields => by
    rw [toJson]
    refine ⟨Assoc.ascending_insert (Assoc.ascending_ofList _) _ _, Json.allMembers_iff.2 fun m hm => ?_⟩
    rcases Assoc.mem_insert hm with rfl | hm
    · trivial
    · exact Json.allMembers_iff.1 (fieldsToJson_regular fields) m (Assoc.mem_of_mem_ofList hm)
  | .ordered _ items | .plural _ items => ⟨trivial, itemsToJson_regular items⟩
  | .keyed _ entries => by
    rw [toJson]
    refine ⟨Assoc.ascending_ofList _, Json.allMembers_iff.2 fun m hm => ?_⟩
    exact Json.allMembers_iff.1 (entriesToJson_regular entries) m (Assoc.mem_of_mem_ofList hm)
  | .handle h => by
    have hnames : [handleMember, typeMember].Pairwise fun a b => compare a b = .lt := by decide
    exact ⟨hnames, trivial, trivial, trivial⟩

theorem itemsToJson_regular : ∀ items : List Value, Json.AllItems Json.IsRegular (itemsToJson items)
  | [] => trivial
  | v :: rest => ⟨toJson_regular v, itemsToJson_regular rest⟩

theorem fieldsToJson_regular : ∀ fields : List (String × Value), Json.AllMembers Json.IsRegular (fieldsToJson fields)
  | [] => trivial
  | (_, v) :: rest => ⟨toJson_regular v, fieldsToJson_regular rest⟩

theorem entriesToJson_regular : ∀ entries : List (Key × Value), Json.AllMembers Json.IsRegular (entriesToJson entries)
  | [] => trivial
  | (_, v) :: rest => ⟨toJson_regular v, entriesToJson_regular rest⟩

end

/-- How the doubles of a value are laid out in its text: plainly if it is one itself. -/
def layout : Value → Decimal.Layout
  | .float _ => Decimal.plain
  | _ => Json.numberLayout

/-- What is read of the text of a value that is neither void nor a text nor a double without end. -/
theorem parse?_text {v : Value} (hvoid : v.isVoid = false) (htext : ∀ s, v ≠ .string s)
    (hfinite : ∀ x, v = .float x → x.isFinite = true) :
    Json.parse? v.text =
      if v.toJson.depth ≤ Json.Progress.depthLimit then v.toJson.reread? v.layout else none := by
  have htree := Json.parse?_text (toJson_regular v)
  cases v with
  | void => cases hvoid
  | string s => exact absurd rfl (htext s)
  | float x =>
    have hx := hfinite x rfl
    rw [text, Json.parse?_figure (Decimal.isFigure_write _ hx), toJson, if_pos hx]
    rfl
  | bool _ | int _ | record _ _ | ordered _ _ | keyed _ _ | plural _ _ | handle _ => exact htree

theorem layout_cases (v : Value) : v.layout = Decimal.plain ∨ v.layout = Json.numberLayout := by
  cases v with
  | float x => exact .inl rfl
  | _ => exact .inr rfl

/-- The numbers of a value are all read, unless it is the greatest double by itself. -/
theorem isSome_reread? {v : Value} (hfinite : ∀ x, v = .float x → x.isFinite = true) :
    (v.toJson.reread? v.layout).isSome = true ↔ ∀ x, v = .float x → ¬ Json.IsGreatest x := by
  have htree := Json.isSome_reread? (toJson_regular v)
  cases v with
  | float x =>
    have hx := hfinite x rfl
    have hread := Json.isSome_read?_write hx (.inl rfl)
    rw [toJson, if_pos hx, Json.reread?, Option.map_eq_map, Option.isSome_map]
    refine hread.trans ⟨?_, ?_⟩
    · intro h x' heq hgreatest
      cases heq
      exact h ⟨rfl, hgreatest⟩
    · rintro h ⟨-, hgreatest⟩
      exact h x rfl hgreatest
  | _ => exact iff_of_true htree nofun

end Value

namespace Library

/-! ## What is posted -/

/-- A value is posted as its text, unless there is none. -/
theorem postMessage_eq (channel event : String) {v : Value} (h : v.isVoid = false) (more : List Value) :
    postMessage (.string channel :: .string event :: v :: more) =
      .ask (.post channel event (some (messageParams v))) fun _ => .done (.ok .void) := by
  have hparams : optional (.string channel :: .string event :: v :: more) 2 = some v := by
    simp [optional, h]
  rw [postMessage, hparams]
  rfl

/-- The text of a value is posted as the parameters, and they decode exactly if the value is not nested too deep and
not the greatest double by itself. What they decode to is the tree of the value with every number as its digits are
read: the tree of the value itself, up to the form of numbers, exactly if every number is read as what it was, as
integers and short doubles are. -/
theorem posted_decodes (channel event : String) (v : Value) (more : List Value) (hvoid : v.isVoid = false)
    (htext : ∀ s, v ≠ .string s) (hfinite : ∀ x, v = .float x → x.isFinite = true) :
    postMessage (.string channel :: .string event :: v :: more) =
        .ask (.post channel event (some v.text)) (fun _ => .done (.ok .void)) ∧
      (∀ m : Message, m.params = some v.text →
        m.paramsJson? =
            (if v.toJson.depth ≤ Json.Progress.depthLimit then v.toJson.reread? v.layout else none) ∧
          (m.paramsJson?.isSome = true ↔
            v.toJson.depth ≤ Json.Progress.depthLimit ∧ ∀ x, v = .float x → ¬ Json.IsGreatest x) ∧
          ((∃ j ∈ m.paramsJson?, j.Alike v.toJson) ↔
            v.toJson.depth ≤ Json.Progress.depthLimit ∧ v.toJson.All (Json.Returns v.layout))) ∧
      (v.toJson.All Json.HasShort → v.toJson.All (Json.Returns v.layout)) := by
  have hposted : postMessage (.string channel :: .string event :: v :: more) =
      .ask (.post channel event (some v.text)) (fun _ => .done (.ok .void)) := by
    rw [postMessage_eq channel event hvoid]
    cases v with
    | string s => exact absurd rfl (htext s)
    | _ => rfl
  refine ⟨hposted, ?_, ?_⟩
  · intro m hm
    have hread : m.paramsJson? =
        if v.toJson.depth ≤ Json.Progress.depthLimit then v.toJson.reread? v.layout else none := by
      rw [Message.paramsJson?, hm]
      exact Value.parse?_text hvoid htext hfinite
    refine ⟨hread, ?_, ?_⟩
    · rw [hread]
      split
      · rename_i hdepth
        rw [and_iff_right hdepth]
        exact Value.isSome_reread? hfinite
      · rename_i hdepth
        simp [hdepth]
    · rw [hread, ← Json.alike_reread?_iff]
      split
      · rename_i hdepth
        rw [and_iff_right hdepth]
      · rename_i hdepth
        simp [hdepth]
  · intro hshort
    exact Json.All.imp (Json.returns_of_short v.layout_cases) (Value.toJson_regular v) hshort

/-- A tenth comes back. -/
theorem posted_tenth :
    postMessage [.string "c", .string "e", .float ⟨0x3fb999999999999a⟩] =
        .ask (.post "c" "e" (some (Value.float ⟨0x3fb999999999999a⟩).text)) (fun _ => .done (.ok .void)) ∧
      ∃ j ∈ (Message.mk ⟨0⟩ "e" (some (Value.float ⟨0x3fb999999999999a⟩).text)).paramsJson?,
        j.Alike (.number (.float ⟨0x3fb999999999999a⟩)) := by
  generalize htenth : (⟨0x3fb999999999999a⟩ : Binary64) = x
  have hfinite : x.isFinite = true := by
    rw [← htenth]
    rfl
  have hshort : Json.IsShort x := by
    have hdigits : Decimal.shortest x = ⟨1, -1⟩ := by
      rw [← htenth]
      decide +kernel
    rw [Json.IsShort, hdigits]
    exact .inr (by decide)
  obtain ⟨hposted, hdecoded, hreturns⟩ := posted_decodes "c" "e" (.float x) [] rfl nofun
    (fun y h => by cases h; exact hfinite)
  have htree : (Value.float x).toJson = .number (.float x) := if_pos hfinite
  rw [htree] at hdecoded hreturns
  obtain ⟨-, -, halike⟩ := hdecoded ⟨⟨0⟩, "e", _⟩ rfl
  exact ⟨hposted, halike.2 ⟨Nat.zero_le _, hreturns hshort⟩⟩

/-- The twenty-third negative power of ten is posted with as many places behind the point, and the double that they
decode to is the next one. -/
theorem posted_next :
    postMessage [.string "c", .string "e", .float ⟨0x3b282db34012b251⟩] =
        .ask (.post "c" "e" (some "0.00000000000000000000001")) (fun _ => .done (.ok .void)) ∧
      (Message.mk ⟨0⟩ "e" (some "0.00000000000000000000001")).paramsJson? =
        some (.number (.float ⟨0x3b282db34012b252⟩)) ∧
      ¬ (Json.number (.float ⟨0x3b282db34012b252⟩)).Alike (Value.float ⟨0x3b282db34012b251⟩).toJson := by
  have htext : Decimal.plain.write ⟨0x3b282db34012b251⟩ = "0.00000000000000000000001" := by decide +kernel
  have hread : Json.Number.read? "0.00000000000000000000001".toList = some (.float ⟨0x3b282db34012b252⟩) := by
    decide +kernel
  have hexponent : Binary64.exponent ⟨0x3b282db34012b252⟩ = Binary64.exponent ⟨0x3b282db34012b251⟩ := by decide +kernel
  have hsigned : Binary64.signed ⟨0x3b282db34012b252⟩ ≠ Binary64.signed ⟨0x3b282db34012b251⟩ := by decide +kernel
  have hfinite : Binary64.isFinite ⟨0x3b282db34012b251⟩ = true := by decide +kernel
  generalize (⟨0x3b282db34012b251⟩ : Binary64) = x at *
  generalize (⟨0x3b282db34012b252⟩ : Binary64) = next at *
  generalize "0.00000000000000000000001" = s at *
  refine ⟨?_, ?_, ?_⟩
  · have hparams : messageParams (.float x) = Decimal.plain.write x := rfl
    rw [postMessage_eq _ _ rfl, hparams, htext]
  · have hfigure := Decimal.isFigure_write Decimal.plain hfinite
    rw [htext] at hfigure
    have hparsed := Json.parse?_figure hfigure
    rw [hread] at hparsed
    exact hparsed
  · intro halike
    have htree : (Value.float x).toJson = .number (.float x) := if_pos hfinite
    rw [htree] at halike
    have hworth : next.worth = x.worth := halike
    rw [Binary64.worth, Binary64.worth, hexponent] at hworth
    exact hsigned (by exact_mod_cast mul_right_cancel₀ (Binary64.two_zpow_pos _).ne' hworth)

end Library

end Scripting
