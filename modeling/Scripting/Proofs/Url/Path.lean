/-
Paths of URLs. The parts of a path in a URL are settled: they hold no slash and nothing that has to be encoded, and
none is a dot, so that they are read as themselves when they are written again. A path that is written behind others
is therefore followed from where these lead (`path_setPath`), and the written form of one path begins with that of
another and a slash exactly if its parts do (`prefix_written_iff`).
-/
import Scripting.Proofs.Route
import Scripting.Url.Parser
import Mathlib.Data.List.DropRight

namespace Scripting

/-- What a computation that ends well has come to in its first part, and then in the rest. -/
theorem of_bind_eq_ok {ε α β : Type} {x : Except ε α} {f : α → Except ε β} {b : β} (h : x >>= f = .ok b) :
    ∃ a, x = .ok a ∧ f a = .ok b := by
  cases x with
  | error e => cases h
  | ok a => exact ⟨a, rfl, h⟩

namespace Url

/-- A character between the parts of a path. -/
def isSlash (special : Bool) (c : Char) : Bool := c == '/' || (special && c == '\\')

theorem splitBy_eq_splitOnP (p : Char → Bool) (cs : List Char) : splitBy p cs = cs.splitOnP p := by
  induction cs with
  | nil => rfl
  | cons c rest ih =>
    rw [List.splitOnP_cons_eq_if_modifyHead, ← ih]
    unfold splitBy
    rw [List.foldr_cons]
    split
    · rfl
    · cases hparts : rest.foldr _ [[]] with
      | nil =>
        have hne := List.splitOnP_ne_nil p rest
        rw [← ih] at hne
        exact absurd hparts hne
      | cons part parts => rfl

/-! ## Encoding -/

/-- A character that stands in a path as it is. -/
def IsPlain (c : Char) : Prop := 0x20 ≤ c.toNat ∧ c.toNat ≤ 0x7e ∧ c ∉ pathSet

instance (c : Char) : Decidable (IsPlain c) :=
  inferInstanceAs (Decidable (0x20 ≤ c.toNat ∧ c.toNat ≤ 0x7e ∧ c ∉ pathSet))

theorem isPlain_hexDigit : ∀ n < 16, IsPlain (hexDigit n) ∧ hexDigit n ≠ '/' ∧ hexDigit n ≠ '\\' := by decide

theorem isPlain_of_not {c : Char} (h : ¬ (decide (c.toNat < 0x20) || decide (0x7e < c.toNat) || pathSet.contains c) = true) :
    IsPlain c := by
  simp only [Bool.or_eq_true, decide_eq_true_eq, List.contains_iff_mem, not_or, Nat.not_lt] at h
  exact ⟨h.1.1, h.1.2, h.2⟩

/-- What stands in an encoded text is plain, and no slash unless it was there before. -/
theorem isPlain_of_mem_encode {cs : List Char} {c : Char} (hc : c ∈ encode pathSet cs) :
    IsPlain c ∧ (c ∈ cs ∨ c ≠ '/' ∧ c ≠ '\\') := by
  obtain ⟨d, hd, hc⟩ := List.mem_flatMap.1 hc
  split at hc
  · obtain ⟨b, -, hc⟩ := List.mem_flatMap.1 hc
    have hlt : b.toNat < 256 := UInt8.toNat_lt_size b
    simp only [List.mem_cons, List.not_mem_nil, or_false] at hc
    rcases hc with rfl | rfl | rfl
    · exact ⟨by decide, .inr (by decide)⟩
    · obtain ⟨hplain, hslash⟩ := isPlain_hexDigit (b.toNat / 16) (by omega)
      exact ⟨hplain, .inr hslash⟩
    · obtain ⟨hplain, hslash⟩ := isPlain_hexDigit (b.toNat % 16) (by omega)
      exact ⟨hplain, .inr hslash⟩
  · rename_i hplain
    obtain rfl := List.mem_singleton.1 hc
    exact ⟨isPlain_of_not hplain, .inl hd⟩

theorem encode_of_plain {cs : List Char} (h : ∀ c ∈ cs, IsPlain c) : encode pathSet cs = cs := by
  induction cs with
  | nil => rfl
  | cons c rest ih =>
    obtain ⟨hlow, hhigh, hset⟩ := h c List.mem_cons_self
    unfold encode at ih ⊢
    rw [List.flatMap_cons, ih fun d hd => h d (List.mem_cons_of_mem _ hd)]
    rw [if_neg (by simp [hlow, hhigh, hset])]
    rfl

theorem not_isIgnored_of_plain {c : Char} (h : IsPlain c) : isIgnored c = false := by
  have hlow : 0x20 ≤ c.toNat := h.1
  unfold isIgnored
  rw [Bool.or_eq_false_iff, Bool.or_eq_false_iff, beq_eq_false_iff_ne, beq_eq_false_iff_ne, beq_eq_false_iff_ne]
  refine ⟨⟨?_, ?_⟩, ?_⟩
  · rintro rfl
    exact absurd hlow (by decide)
  · rintro rfl
    exact absurd hlow (by decide)
  · rintro rfl
    exact absurd hlow (by decide)

/-! ## Dots -/

/-- Whether the last part of a path is a dot, which leaves an empty part behind. -/
def endsInDot (parts : List String) : Bool := parts.getLast?.any fun part => isDot part || isDoubleDot part

/-- Where the parts of a path lead from others. -/
def route (parts : List String) : Route :=
  let r := Route.ofParts isDot isDoubleDot parts
  if endsInDot parts then { r with down := r.down ++ [""] } else r

theorem up_route (parts : List String) : (route parts).up = (Route.ofParts isDot isDoubleDot parts).up := by
  unfold route
  simp only
  split
  · rfl
  · rfl

theorem target_route (parts place : List String) : (route parts).target place =
    parts.foldl (follow isDot isDoubleDot) place ++ if endsInDot parts then [""] else [] := by
  rw [Route.foldl_follow]
  unfold route
  simp only
  split
  · exact (List.append_assoc _ _ _).symm
  · rw [List.append_nil]

theorem resolveDots_cons {rest : List String} (h : rest ≠ []) (done : List String) (part : String) :
    resolveDots done (part :: rest) = resolveDots (follow isDot isDoubleDot done part) rest := by
  cases rest with
  | nil => exact absurd rfl h
  | cons next rest =>
    rw [resolveDots]
    unfold follow
    split
    · rfl
    · split
      · rfl
      · rfl
    · nofun

/-- Following the dots of a path is following its route. -/
theorem resolveDots_eq_target {parts : List String} (h : parts ≠ []) (done : List String) :
    resolveDots done parts = (route parts).target done := by
  rw [target_route]
  induction parts generalizing done with
  | nil => exact absurd rfl h
  | cons part rest ih =>
    cases rest with
    | nil =>
      rw [resolveDots, List.foldl_cons, List.foldl_nil]
      unfold follow endsInDot
      cases hback : isDoubleDot part with
      | true => simp [hback]
      | false => cases hstays : isDot part <;> simp [hback, hstays]
    | cons next rest =>
      rw [resolveDots_cons (List.cons_ne_nil next rest), ih (List.cons_ne_nil next rest)]
      rfl

/-- A path of one part or more always leads to one. -/
theorem down_route_ne_nil {parts : List String} (h : parts ≠ []) : (route parts).down ≠ [] := by
  unfold route
  simp only
  split
  · simp
  · rename_i hlast
    obtain ⟨front, last, rfl⟩ := (List.eq_nil_or_concat parts).resolve_left h
    rw [List.concat_eq_append] at hlast ⊢
    unfold endsInDot at hlast
    rw [List.getLast?_concat, Option.any_some, Bool.or_eq_true, not_or] at hlast
    rw [Route.ofParts_append]
    unfold Route.step
    rw [if_neg hlast.2, if_neg hlast.1]
    simp

/-! ## Settled parts -/

/-- A part of a path that is read as itself when it is written again. -/
structure IsSettled (special : Bool) (part : String) : Prop where
  plain : ∀ c ∈ part.toList, IsPlain c
  whole : ∀ c ∈ part.toList, isSlash special c = false
  notDot : isDot part = false
  notDoubleDot : isDoubleDot part = false

theorem isSettled_empty (special : Bool) : IsSettled special "" := by
  refine ⟨?_, ?_, rfl, rfl⟩
  · simp
  · simp

/-- The parts of a path as they are written in a URL, with the dots. -/
def writtenParts (special : Bool) (cs : List Char) : List String :=
  (cs.splitOnP (isSlash special)).map fun part => String.ofList (encode pathSet part)

theorem writtenParts_ne_nil (special : Bool) (cs : List Char) : writtenParts special cs ≠ [] := by
  unfold writtenParts
  rw [ne_eq, List.map_eq_nil_iff]
  exact List.splitOnP_ne_nil _ _

theorem pathParts_eq (special : Bool) (cs : List Char) :
    pathParts special cs = (route (writtenParts special cs)).target [] := by
  rw [← resolveDots_eq_target (writtenParts_ne_nil special cs)]
  unfold pathParts writtenParts
  rw [splitBy_eq_splitOnP]
  rfl

theorem not_mem_of_mem_splitOnP {p : Char → Bool} {cs piece : List Char} (h : piece ∈ cs.splitOnP p) :
    ∀ c ∈ piece, p c = false := by
  induction cs generalizing piece with
  | nil =>
    rw [List.splitOnP_nil, List.mem_singleton] at h
    subst h
    nofun
  | cons c rest ih =>
    rw [List.splitOnP_cons_eq_if_modifyHead] at h
    split at h
    · rcases List.mem_cons.1 h with rfl | h
      · nofun
      · exact ih h
    · rename_i hc
      cases hparts : rest.splitOnP p with
      | nil => exact absurd hparts (List.splitOnP_ne_nil p rest)
      | cons first others =>
        rw [hparts] at h ih
        rcases List.mem_cons.1 h with rfl | h
        · intro d hd
          rcases List.mem_cons.1 hd with rfl | hd
          · simpa using hc
          · exact ih List.mem_cons_self d hd
        · exact ih (List.mem_cons_of_mem _ h)

theorem isSettled_of_mem_target {special : Bool} {cs : List Char} {place : List String}
    (hplace : ∀ part ∈ place, IsSettled special part) {part : String}
    (h : part ∈ (route (writtenParts special cs)).target place) : IsSettled special part := by
  rw [target_route, List.mem_append] at h
  rcases h with h | h
  · rcases Route.mem_foldl_follow h with h | ⟨h, hback, hstays⟩
    · exact hplace part h
    · obtain ⟨piece, hpiece, rfl⟩ := List.mem_map.1 h
      refine ⟨fun c hc => ?_, fun c hc => ?_, hstays, hback⟩
      · rw [String.toList_ofList] at hc
        exact (isPlain_of_mem_encode hc).1
      · rw [String.toList_ofList] at hc
        rcases (isPlain_of_mem_encode hc).2 with hc | ⟨hslash, hback⟩
        · exact not_mem_of_mem_splitOnP hpiece c hc
        · simp [isSlash, hslash, hback]
  · split at h
    · obtain rfl := List.mem_singleton.1 h
      exact isSettled_empty special
    · cases h

theorem isSettled_of_mem_pathParts {special : Bool} {cs : List Char} {part : String}
    (h : part ∈ pathParts special cs) : IsSettled special part := by
  rw [pathParts_eq] at h
  exact isSettled_of_mem_target (fun _ hp => absurd hp List.not_mem_nil) h

/-! ## Written paths -/

/-- The characters of parts with a slash in front of each. -/
def written (parts : List String) : List Char := parts.flatMap fun part => '/' :: part.toList

theorem toList_text (parts : List String) : (Path.segments parts).text.toList = written parts := by
  unfold Path.text written
  rw [String.toList_join, List.flatMap_map]
  refine congrArg (List.flatMap · parts) (funext fun part => ?_)
  rw [String.toList_append]
  rfl

theorem written_append_singleton (front : List String) (last : String) :
    written (front ++ [last]) = written front ++ '/' :: last.toList := by
  unfold written
  rw [List.flatMap_append, List.flatMap_singleton]

theorem exists_slash_written (parts : List String) (rest : List Char) :
    ∃ cs, written parts ++ '/' :: rest = '/' :: cs := by
  cases parts with
  | nil => exact ⟨_, rfl⟩
  | cons part others => exact ⟨_, rfl⟩

variable {special : Bool} {place : List String}

/-- A written path is split into its parts, and what is written behind it into its own. -/
theorem splitOnP_written (h : ∀ part ∈ place, IsSettled special part) {cs rest : List Char}
    (hcs : '/' :: cs = written place ++ '/' :: rest) :
    cs.splitOnP (isSlash special) = place.map String.toList ++ rest.splitOnP (isSlash special) := by
  induction place generalizing cs with
  | nil =>
    cases hcs
    rfl
  | cons part others ih =>
    obtain ⟨hpart, hothers⟩ := List.forall_mem_cons.1 h
    -- behind the part stands the slash of the next one
    obtain ⟨behind, hbehind⟩ := exists_slash_written others rest
    have hpart' : cs = part.toList ++ '/' :: behind := by
      unfold written at hcs hbehind
      rw [List.flatMap_cons, List.cons_append, List.cons_append, List.append_assoc, hbehind] at hcs
      exact (List.cons.inj hcs).2
    rw [hpart', List.splitOnP_append_cons_of_forall_mem hpart.whole '/' rfl, ih hothers hbehind.symm]
    rfl

/-- Settled parts that are read again are the same parts. -/
theorem writtenParts_written (h : ∀ part ∈ place, IsSettled special part) {cs rest : List Char}
    (hcs : '/' :: cs = written place ++ '/' :: rest) : writtenParts special cs = place ++ writtenParts special rest := by
  unfold writtenParts
  rw [splitOnP_written h hcs, List.map_append, List.map_map]
  congr 1
  conv_rhs => rw [← List.map_id place]
  refine List.map_congr_left fun part hpart => ?_
  rw [Function.comp_apply, encode_of_plain (h part hpart).plain, String.ofList_toList]
  rfl

theorem foldl_follow_settled (h : ∀ part ∈ place, IsSettled special part) (done : List String) :
    place.foldl (follow isDot isDoubleDot) done = done ++ place := by
  induction place generalizing done with
  | nil => exact (List.append_nil done).symm
  | cons part others ih =>
    obtain ⟨hpart, hothers⟩ := List.forall_mem_cons.1 h
    rw [List.foldl_cons, ih hothers]
    unfold follow
    rw [hpart.notDoubleDot, hpart.notDot]
    exact List.append_assoc _ _ _

/-- A path that is written behind a settled one is followed from where that leads. -/
theorem pathParts_written (h : ∀ part ∈ place, IsSettled special part) {cs rest : List Char}
    (hcs : '/' :: cs = written place ++ '/' :: rest) :
    pathParts special cs = (route (writtenParts special rest)).target place := by
  have hlast : endsInDot (place ++ writtenParts special rest) = endsInDot (writtenParts special rest) := by
    unfold endsInDot
    rw [List.getLast?_append_of_ne_nil _ (writtenParts_ne_nil special rest)]
  rw [pathParts_eq, writtenParts_written h hcs, target_route, target_route, hlast, List.foldl_append,
    foldl_follow_settled h, List.nil_append]

theorem filter_written (h : ∀ part ∈ place, IsSettled special part) :
    (written place).filter (!isIgnored ·) = written place := by
  refine List.filter_eq_self.2 fun c hc => ?_
  obtain ⟨part, hpart, hc⟩ := List.mem_flatMap.1 hc
  rcases List.mem_cons.1 hc with rfl | hc
  · rfl
  · rw [not_isIgnored_of_plain ((h part hpart).plain c hc)]
    rfl

/-- A URL that is given a path behind a settled one leads where that path leads from there. -/
theorem path_setPath (u : Url) (h : ∀ part ∈ place, IsSettled u.isSpecial part) {path : String} {rest : List Char}
    (hpath : path.toList = written place ++ '/' :: rest) :
    (u.setPath path).path =
      .segments ((route (writtenParts u.isSpecial (rest.filter (!isIgnored ·)))).target place) := by
  have hcs : path.toList.filter (!isIgnored ·) = written place ++ '/' :: rest.filter (!isIgnored ·) := by
    rw [hpath, List.filter_append, filter_written h]
    rfl
  obtain ⟨cs, hslash⟩ := exists_slash_written place (rest.filter (!isIgnored ·))
  unfold setPath
  simp only [hcs, hslash]
  rw [pathParts_written h hslash.symm]

@[simp] theorem path_setQuery (u : Url) (query : Option String) : (u.setQuery query).path = u.path := rfl

/-- A path without the slashes at its end. -/
theorem rdropWhile_written (h : ∀ part ∈ place, IsSettled special part) :
    (written place).rdropWhile (· == '/') = written (place.rdropWhile (· == "")) := by
  induction place using List.reverseRecOn with
  | nil => rfl
  | append_singleton others part ih =>
    have hothers : ∀ part ∈ others, IsSettled special part := fun p hp => h p (List.mem_append_left _ hp)
    have hpart : IsSettled special part := h part (List.mem_append_right _ (List.mem_singleton.2 rfl))
    rw [List.rdropWhile_concat]
    split
    · rename_i hempty
      obtain rfl : part = "" := by simpa using hempty
      rw [written_append_singleton]
      show (written others ++ ['/']).rdropWhile _ = _
      rw [List.rdropWhile_concat, if_pos (beq_self_eq_true _), ih hothers]
    · rename_i hpart'
      have hne : part.toList ≠ [] := fun hnil => hpart' (by simpa using String.toList_eq_nil_iff.1 hnil)
      obtain ⟨front, last, hlast⟩ := (List.eq_nil_or_concat part.toList).resolve_left hne
      rw [List.concat_eq_append] at hlast
      have hnot : isSlash special last = false := hpart.whole last (by rw [hlast]; simp)
      rw [written_append_singleton, hlast, ← List.cons_append, ← List.append_assoc, List.rdropWhile_concat, if_neg]
      unfold isSlash at hnot
      rw [Bool.or_eq_false_iff] at hnot
      rw [hnot.1]
      exact Bool.false_ne_true

/-- The written form of a path begins with that of another and a slash exactly if its parts begin with those. -/
theorem prefix_written_iff {goal : List String} (hplace : ∀ part ∈ place, IsSettled special part)
    (hgoal : ∀ part ∈ goal, IsSettled special part) :
    written place ++ ['/'] <+: written goal ↔ ∃ rest, rest ≠ [] ∧ goal = place ++ rest := by
  constructor
  · rintro ⟨rest, hrest⟩
    have hne : goal ≠ [] := by
      rintro rfl
      simp [written] at hrest
    obtain ⟨front, last, rfl⟩ := (List.eq_nil_or_concat goal).resolve_left hne
    rw [List.concat_eq_append] at hgoal hrest ⊢
    have hlast : IsSettled special last := hgoal last (List.mem_append_right _ (List.mem_singleton.2 rfl))
    obtain ⟨cs, hslash⟩ := exists_slash_written front last.toList
    -- both ways to split the path give its parts
    have hown := splitOnP_written (fun p hp => hgoal p (List.mem_append_left _ hp)) hslash.symm
    rw [written_append_singleton, hslash, List.append_assoc] at hrest
    have hsame := splitOnP_written hplace hrest.symm
    rw [hown, List.splitOnP_eq_singleton hlast.whole] at hsame
    have hmap : (front ++ [last]).map String.toList = place.map String.toList ++ rest.splitOnP (isSlash special) := by
      rw [List.map_append]
      exact hsame
    obtain ⟨start, behind, hgoal', hstart, hbehind⟩ := List.map_eq_append_iff.1 hmap
    obtain rfl := List.map_injective_iff.2 (fun _ _ => String.toList_inj.1) hstart
    refine ⟨behind, ?_, hgoal'⟩
    rintro rfl
    exact List.splitOnP_ne_nil _ _ hbehind.symm
  · rintro ⟨rest, hne, rfl⟩
    obtain ⟨part, others, rfl⟩ := List.exists_cons_of_ne_nil hne
    refine ⟨part.toList ++ written others, ?_⟩
    unfold written
    rw [List.flatMap_append, List.flatMap_cons, List.append_assoc]
    rfl

/-! ## Parsed URLs -/

/-- A URL whose path has no parts or settled ones only. -/
def HasSettledPath (u : Url) : Prop :=
  ∀ parts, u.path = .segments parts → ∀ part ∈ parts, IsSettled u.isSpecial part

theorem hasSettledPath_withTail (u : Url) (cs : List Char) : (withTail u cs).HasSettledPath := by
  intro parts hparts part hpart
  show IsSettled u.isSpecial part
  unfold withTail at hparts
  simp only [Path.segments.injEq] at hparts
  subst hparts
  split at hpart
  · cases hpart
  · exact isSettled_of_mem_pathParts hpart

theorem hasSettledPath_of_parseAuthority {scheme : String} {cs : List Char} {u : Url}
    (h : parseAuthority scheme cs = .ok u) : u.HasSettledPath := by
  unfold parseAuthority at h
  simp only at h
  split at h
  · obtain ⟨_, hthrow, _⟩ := of_bind_eq_ok h
    cases hthrow
  · split at h
    · obtain ⟨host, -, h⟩ := of_bind_eq_ok h
      obtain ⟨port, -, h⟩ := of_bind_eq_ok h
      cases h
      exact hasSettledPath_withTail _ _
    · obtain ⟨host, -, h⟩ := of_bind_eq_ok h
      obtain ⟨port, -, h⟩ := of_bind_eq_ok h
      cases h
      exact hasSettledPath_withTail _ _

theorem hasSettledPath_of_parseFile {cs : List Char} {u : Url} (h : parseFile cs = .ok u) : u.HasSettledPath := by
  unfold parseFile at h
  simp only at h
  split at h
  · split at h
    · split at h
      · cases h
        exact hasSettledPath_withTail _ _
      · obtain ⟨host, -, h⟩ := of_bind_eq_ok h
        cases h
        exact hasSettledPath_withTail _ _
    · cases h
      exact hasSettledPath_withTail _ _
  · cases h
    exact hasSettledPath_withTail _ _

theorem hasSettledPath_parseBare (scheme : String) (cs : List Char) : (parseBare scheme cs).HasSettledPath := by
  unfold parseBare
  split
  · exact hasSettledPath_withTail _ _
  · nofun

theorem hasSettledPath_of_parse {s : String} {u : Url} (h : parse s = .ok u) : u.HasSettledPath := by
  unfold parse at h
  simp only at h
  split at h
  · cases h
  · split at h
    · exact hasSettledPath_of_parseFile h
    · split at h
      · exact hasSettledPath_of_parseAuthority h
      · split at h
        · exact hasSettledPath_of_parseAuthority h
        · cases h
          exact hasSettledPath_parseBare _ _

end Url

end Scripting
