/-
What a document leaves in the preferences. A value of the document that is no table is read under the
keys that lead to it, with dots between them, and every other key keeps its text. This fails for exactly
one sort of path: one that leads into a table under an empty key of the document
(`load_keeps_unless_under_empty`). The empty text in front of a key stands for the document itself, so
such a table is taken for the document, and its values lose the dot in front (`dot_lost`).
-/
import Scripting.Net.PreferenceFile
import Scripting.Proofs.Assoc
import Mathlib.Data.Finset.Max

namespace Scripting.Net

/-! ## The values of a document -/

mutual

/-- The values in a value that are no tables, each with the keys that lead to it. -/
def leaves : Toml → List (List String × Toml)
  | .table entries => leavesOfEntries entries
  | v => [([], v)]

def leavesOfEntries : List (String × Toml) → List (List String × Toml)
  | [] => []
  | (k, v) :: rest => (leaves v).map (fun l => (k :: l.1, l.2)) ++ leavesOfEntries rest

end

/-- The keys of a path with dots between them. -/
def joined (path : List String) : String := ".".intercalate path

/-- The key that the value at a path is kept under: empty keys that the path begins with are left out. -/
def keptUnder (path : List String) : String := joined (path.dropWhile String.isEmpty)

/-- The path leads into a table under an empty key of the document. -/
def UnderEmpty (path : List String) : Prop := ∃ k rest, path = "" :: k :: rest

/-- What a document stores, in order. -/
def stored (document : Toml.Table) : List (String × String) :=
  (leavesOfEntries document).map fun l => (keptUnder l.1, preferenceText l.2)

/-! ## Joined keys -/

theorem joined_singleton (k : String) : joined [k] = k := String.intercalate_singleton

theorem joined_cons_cons (k l : String) (rest : List String) :
    joined (k :: l :: rest) = k ++ "." ++ joined (l :: rest) := String.intercalate_cons_cons

theorem keptUnder_empty_cons (rest : List String) : keptUnder ("" :: rest) = keptUnder rest := rfl

theorem keptUnder_cons {k : String} (h : k ≠ "") (rest : List String) :
    keptUnder (k :: rest) = joined (k :: rest) := by
  unfold keptUnder
  rw [List.dropWhile_cons_of_neg (by simpa using h)]

/-- Below a table with a key, every key adds a dot and itself. -/
theorem foldl_joinKeys {table : String} (h : table ≠ "") (path : List String) :
    path.foldl joinKeys table = joined (table :: path) := by
  induction path generalizing table with
  | nil => exact (joined_singleton table).symm
  | cons k rest ih =>
    have hkey : joinKeys table k = table ++ "." ++ k := if_neg (by simpa using h)
    have hne : table ++ "." ++ k ≠ "" := by simp [String.append_eq_empty_iff]
    rw [List.foldl_cons, hkey, ih hne, joined_cons_cons]
    exact String.intercalate_cons_append

theorem foldl_joinKeys_empty (path : List String) : path.foldl joinKeys "" = keptUnder path := by
  induction path with
  | nil => rfl
  | cons k rest ih =>
    rw [List.foldl_cons]
    by_cases hk : k = ""
    · subst hk
      rw [keptUnder_empty_cons]
      exact ih
    · rw [keptUnder_cons hk]
      exact foldl_joinKeys hk rest

theorem length_keptUnder_le (path : List String) : (keptUnder path).length ≤ (joined path).length := by
  induction path with
  | nil => exact Nat.le_refl _
  | cons k rest ih =>
    by_cases hk : k = ""
    · subst hk
      rw [keptUnder_empty_cons]
      cases rest with
      | nil => exact ih
      | cons l rest =>
        rw [joined_cons_cons, String.length_append]
        exact Nat.le_trans ih (Nat.le_add_left _ _)
    · rw [keptUnder_cons hk]

/-- A value in a table under an empty key is kept under a key that is too short. -/
theorem length_keptUnder_lt {path : List String} (h : UnderEmpty path) :
    (keptUnder path).length < (joined path).length := by
  obtain ⟨k, rest, rfl⟩ := h
  have hle : (keptUnder (k :: rest)).length ≤ (joined (k :: rest)).length := length_keptUnder_le (k :: rest)
  have hdot : ("" ++ "." : String).length = 1 := rfl
  rw [keptUnder_empty_cons, joined_cons_cons, String.length_append, hdot]
  omega

theorem keptUnder_eq_iff (path : List String) : keptUnder path = joined path ↔ ¬ UnderEmpty path := by
  constructor
  · intro heq h
    exact Nat.ne_of_lt (length_keptUnder_lt h) (congrArg String.length heq)
  · intro h
    cases path with
    | nil => rfl
    | cons k rest =>
      by_cases hk : k = ""
      · subst hk
        cases rest with
        | nil => rfl
        | cons l rest => exact absurd ⟨l, rest, rfl⟩ h
      · exact keptUnder_cons hk rest

/-! ## What is stored -/

mutual

theorem preferencesOf_eq (key : String) : ∀ v : Toml,
    preferencesOf key v = (leaves v).map fun l => (l.1.foldl joinKeys key, preferenceText l.2)
  | .table entries => preferencesOfEntries_eq key entries
  | .string _ | .integer _ | .float _ | .boolean _ | .dateTime _ | .array _ => rfl

theorem preferencesOfEntries_eq (table : String) : ∀ entries : List (String × Toml),
    preferencesOfEntries table entries =
      (leavesOfEntries entries).map fun l => (l.1.foldl joinKeys table, preferenceText l.2)
  | [] => rfl
  | (k, v) :: rest => by
    rw [preferencesOfEntries, leavesOfEntries, List.map_append, List.map_map, preferencesOf_eq (joinKeys table k) v,
      preferencesOfEntries_eq table rest]
    rfl

end

theorem load_eq (p : Preferences) (document : Toml.Table) :
    p.load document = (stored document).foldl (fun p e => p.set e.1 e.2) p := by
  unfold Preferences.load stored
  rw [preferencesOfEntries_eq]
  simp only [foldl_joinKeys_empty]

/-- Under a key is the last that the document stores there, or what was there before. -/
theorem getString_load (p : Preferences) (document : Toml.Table) (key : String) :
    (p.load document).getString key = (Assoc.find? key (stored document).reverse).or (p.getString key) := by
  rw [load_eq]
  exact Assoc.find?_foldl_insert key (stored document) p

/-! ## Kept settings -/

/-- The values of a document can be read where its paths lead. -/
def Readable (document : Toml.Table) (p : Preferences) : Prop :=
  ∀ path v, (path, v) ∈ leavesOfEntries document → p.getString (joined path) = some (preferenceText v)

/-- Keys that no path of a document leads to have the texts that they had. -/
def Untouched (document : Toml.Table) (p q : Preferences) : Prop :=
  ∀ key, (∀ path v, (path, v) ∈ leavesOfEntries document → joined path ≠ key) → q.getString key = p.getString key

/-- Where no path leads into a table under an empty key, the document stores every value under its path. -/
theorem stored_of_not_underEmpty {document : Toml.Table}
    (h : ∀ path v, (path, v) ∈ leavesOfEntries document → ¬ UnderEmpty path) :
    stored document = (leavesOfEntries document).map fun l => (joined l.1, preferenceText l.2) := by
  refine List.map_congr_left fun l hl => ?_
  rw [(keptUnder_eq_iff l.1).2 (h l.1 l.2 hl)]

/-- Some value cannot be read where its path leads if a path leads into a table under an empty key: the
longest of these is kept elsewhere, and what is kept there is shorter or another's. -/
theorem not_readable_of_underEmpty {document : Toml.Table}
    (hdistinct : ((leavesOfEntries document).map fun l => joined l.1).Nodup)
    {path : List String} {v : Toml} (hpath : (path, v) ∈ leavesOfEntries document) (hunder : UnderEmpty path) :
    ¬ Readable document (Preferences.load [] document) := by
  classical
  intro hread
  -- the paths into such tables, and the longest of them
  let under := ((leavesOfEntries document).map Prod.fst).toFinset.filter UnderEmpty
  have hmem {q : List String} : q ∈ under ↔ (∃ w, (q, w) ∈ leavesOfEntries document) ∧ UnderEmpty q := by
    simp [under]
  obtain ⟨longest, hlongest, hmax⟩ :=
    under.exists_max_image (fun q => (joined q).length) ⟨path, hmem.2 ⟨⟨v, hpath⟩, hunder⟩⟩
  obtain ⟨⟨w, hw⟩, hempty⟩ := hmem.1 hlongest
  have hfound : (Preferences.load [] document).getString (joined longest) = some (preferenceText w) := hread longest w hw
  rw [getString_load, show Preferences.getString [] (joined longest) = none from rfl, Option.or_none] at hfound
  obtain ⟨l, hl, hkey⟩ := List.mem_map.1 (List.mem_reverse.1 (Assoc.mem_of_find? hfound))
  have hkept : keptUnder l.1 = joined longest := congrArg Prod.fst hkey
  by_cases hl' : UnderEmpty l.1
  · have hlt : (keptUnder l.1).length < (joined l.1).length := length_keptUnder_lt hl'
    rw [hkept] at hlt
    exact Nat.not_lt_of_le (hmax l.1 (hmem.2 ⟨⟨l.2, hl⟩, hl'⟩)) hlt
  · rw [(keptUnder_eq_iff l.1).2 hl'] at hkept
    have hsame : l = (longest, w) := List.inj_on_of_nodup_map hdistinct hl hw hkept
    exact hl' (hsame ▸ hempty)

/-- **What a document leaves in the preferences.** If the paths to the values of a document are all
different when they are joined with dots, loading the document makes every value readable where its path
leads and changes no other key, whatever was there before, exactly if no path leads into a table under an
empty key of the document. Under a key is always the last value that is kept there, or what was there
before; and the values in tables under an empty key, and only those, are kept under other keys than their
paths. -/
theorem load_keeps_unless_under_empty (document : Toml.Table)
    (hdistinct : ((leavesOfEntries document).map fun l => joined l.1).Nodup) :
    ((∀ p : Preferences, Readable document (p.load document) ∧ Untouched document p (p.load document)) ↔
      ∀ path v, (path, v) ∈ leavesOfEntries document → ¬ UnderEmpty path) ∧
    (∀ (p : Preferences) (key : String), (p.load document).getString key =
      (Assoc.find? key (stored document).reverse).or (p.getString key)) ∧
    ∀ path, keptUnder path = joined path ↔ ¬ UnderEmpty path := by
  refine ⟨⟨?_, ?_⟩, fun p key => getString_load p document key, keptUnder_eq_iff⟩
  · intro h path v hpath hunder
    exact not_readable_of_underEmpty hdistinct hpath hunder (h []).1
  · intro hnone p
    have hstored := stored_of_not_underEmpty hnone
    have hnodup : (Assoc.keys (stored document).reverse).Nodup := by
      rw [hstored, Assoc.keys, List.map_reverse, List.nodup_reverse, List.map_map]
      exact hdistinct
    constructor
    · intro path v hpath
      have hmem : (joined path, preferenceText v) ∈ (stored document).reverse := by
        rw [hstored, List.mem_reverse]
        exact List.mem_map_of_mem (f := fun l => (joined l.1, preferenceText l.2)) hpath
      rw [getString_load, Assoc.find?_of_mem_nodup hnodup hmem, Option.some_or]
    · intro key hkey
      have hnone : key ∉ Assoc.keys (stored document).reverse := by
        rw [hstored, Assoc.keys, List.map_reverse, List.mem_reverse, List.map_map]
        intro h
        obtain ⟨l, hl, hjoined⟩ := List.mem_map.1 h
        exact hkey l.1 l.2 hl hjoined
      rw [getString_load, Assoc.find?_eq_none hnone, Option.none_or]

/-- Keys with dots in them and empty keys inside of tables are read as their paths say. -/
theorem loaded_in_place :
    let document : Toml.Table :=
      [("", .integer 1), ("a", .table [("", .table [("", .boolean true)]), ("b", .string "x")]),
        ("a.c", .table [("d.e", .string "y")])]
    ((leavesOfEntries document).map fun l => joined l.1).Nodup ∧
    ∀ p : Preferences, Readable document (p.load document) ∧ Untouched document p (p.load document) := by
  intro document
  have hdistinct : ((leavesOfEntries document).map fun l => joined l.1).Nodup := by
    decide
  refine ⟨hdistinct, (load_keeps_unless_under_empty document hdistinct).1.2 ?_⟩
  rintro path v hpath ⟨k, rest, rfl⟩
  simp [document, leavesOfEntries, leaves] at hpath

/-- A value in a table under an empty key of the document is not under its path, and the key without the
dot, to which no path leads, has the value. -/
theorem dot_lost :
    let document : Toml.Table := [("", .table [("k", .string "v")])]
    ((leavesOfEntries document).map fun l => joined l.1) = [".k"] ∧
    (Preferences.load [] document).getString ".k" = none ∧
    (Preferences.load [] document).getString "k" = some "v" := by
  decide

end Scripting.Net
