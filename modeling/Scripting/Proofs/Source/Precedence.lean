/-
Which file an id stands for. The directories are looked through in their order, each first for a file of exactly the id
and then for one with the ending, and the first file decides (`Decides`): its text is the source, and if it cannot be
read the search fails, whatever files come behind it. There is no source only where there is no file at all.
-/
import Scripting.Source.Basic
import Mathlib.Data.String.Basic

namespace Scripting.Resolver

open FileTree

variable {read? : String → Option (Except String String)} {directories : List String} {id path : String}

/-- A path decides which file an id stands for: it leads to a file, no directory in front of its own has a file under
the id or the id with its ending, and if the path has the ending there is no file of exactly the id beside it. -/
def Decides (read? : String → Option (Except String String)) (directories : List String) (id path : String) : Prop :=
  ∃ before directory after, directories = before ++ directory :: after ∧
    (∀ d ∈ before, read? (join d id) = none ∧ read? (join d (id ++ ".js")) = none) ∧
    (path = join directory id ∨ path = join directory (id ++ ".js") ∧ read? (join directory id) = none) ∧
    (read? path).isSome

theorem candidates_append (before after : List String) (id : String) :
    candidates (before ++ after) id = candidates before id ++ candidates after id := List.flatMap_append

theorem candidates_cons (directory : String) (rest : List String) (id : String) :
    candidates (directory :: rest) id =
      join directory id :: join directory (id ++ ".js") :: candidates rest id := rfl

theorem mem_candidates : path ∈ candidates directories id ↔
    ∃ directory ∈ directories, path = join directory id ∨ path = join directory (id ++ ".js") := by
  simp [candidates]

/-- There is no file among the candidates of some directories. -/
theorem no_file_iff : (∀ p ∈ candidates directories id, read? p = none) ↔
    ∀ d ∈ directories, read? (join d id) = none ∧ read? (join d (id ++ ".js")) = none := by
  constructor
  · intro h d hd
    exact ⟨h _ (mem_candidates.2 ⟨d, hd, .inl rfl⟩), h _ (mem_candidates.2 ⟨d, hd, .inr rfl⟩)⟩
  · intro h p hp
    obtain ⟨d, hd, rfl | rfl⟩ := mem_candidates.1 hp
    · exact (h d hd).1
    · exact (h d hd).2

/-- The path that decides is the first candidate that leads to a file. -/
theorem decides_iff : Decides read? directories id path ↔ (read? path).isSome ∧
    ∃ front back, candidates directories id = front ++ path :: back ∧ ∀ p ∈ front, read? p = none := by
  constructor
  · rintro ⟨before, directory, after, rfl, hbefore, hpath, hfile⟩
    have hnone := no_file_iff.2 hbefore
    refine ⟨hfile, ?_⟩
    rw [candidates_append, candidates_cons]
    rcases hpath with rfl | ⟨rfl, hexact⟩
    · exact ⟨candidates before id, _, rfl, hnone⟩
    · refine ⟨candidates before id ++ [join directory id], candidates after id, by simp, ?_⟩
      intro p hp
      rcases List.mem_append.1 hp with hp | hp
      · exact hnone p hp
      · obtain rfl := List.mem_singleton.1 hp
        exact hexact
  · rintro ⟨hfile, front, back, hsplit, hnone⟩
    induction directories generalizing front with
    | nil => simp [candidates] at hsplit
    | cons directory rest ih =>
      rw [candidates_cons] at hsplit
      -- the path is one of the two in the first directory, or those are in front of it
      match front with
      | [] =>
        cases hsplit
        exact ⟨[], directory, rest, rfl, by simp, .inl rfl, hfile⟩
      | [p] =>
        cases hsplit
        exact ⟨[], directory, rest, rfl, by simp, .inr ⟨rfl, hnone _ (by simp)⟩, hfile⟩
      | p :: q :: front =>
        simp only [List.cons_append, List.cons.injEq] at hsplit
        obtain ⟨rfl, rfl, hsplit⟩ := hsplit
        obtain ⟨before, d, after, rfl, hbefore, hpath⟩ := ih front hsplit fun p hp => hnone p (by simp [hp])
        refine ⟨directory :: before, d, after, rfl, ?_, hpath⟩
        intro d' hd'
        rcases List.mem_cons.1 hd' with rfl | hd'
        · exact ⟨hnone _ (by simp), hnone _ (by simp)⟩
        · exact hbefore d' hd'

/-! ## The first file -/

theorem firstFile?_eq_none_iff {paths : List String} : firstFile? read? paths = none ↔ ∀ p ∈ paths, read? p = none := by
  simp [firstFile?]

theorem firstFile?_eq_some_iff {r : Except String String} :
    firstFile? read? (candidates directories id) = some (path, r) ↔
      Decides read? directories id path ∧ read? path = some r := by
  rw [decides_iff, firstFile?, List.findSome?_eq_some_iff]
  constructor
  · rintro ⟨front, p, back, hsplit, hread, hnone⟩
    obtain ⟨r', hr, heq⟩ := Option.map_eq_some_iff.1 hread
    cases heq
    refine ⟨⟨by simp [hr], front, back, hsplit, ?_⟩, hr⟩
    intro p hp
    simpa using hnone p hp
  · rintro ⟨⟨-, front, back, hsplit, hnone⟩, hr⟩
    refine ⟨front, path, back, hsplit, by simp [hr], ?_⟩
    intro p hp
    simp [hnone p hp]

/-- Where one of some paths leads to a file, it does not matter what stands behind them. -/
theorem firstFile?_append_of_mem {front back : List String} (hmem : path ∈ front) (hfile : (read? path).isSome) :
    firstFile? read? (front ++ back) = firstFile? read? front := by
  have hsome : firstFile? read? front ≠ none := by
    intro hnone
    rw [firstFile?_eq_none_iff.1 hnone path hmem] at hfile
    cases hfile
  obtain ⟨r, hr⟩ := Option.ne_none_iff_exists'.1 hsome
  unfold firstFile? at hr ⊢
  rw [List.findSome?_append, hr, Option.some_or]

theorem firstFile?_congr {read?' : String → Option (Except String String)} {paths : List String}
    (h : ∀ p ∈ paths, read?' p = read? p) : firstFile? read?' paths = firstFile? read? paths := by
  induction paths with
  | nil => rfl
  | cons p rest ih =>
    unfold firstFile? at ih ⊢
    rw [List.findSome?_cons, List.findSome?_cons, h p (by simp), ih fun q hq => h q (by simp [hq])]

/-! ## What the search comes to -/

/-- The source of an id is the file at the path that decides, and there is no other. -/
theorem inDirectories_eq_ok_cons_iff {s : Source} {sources : List Source} :
    inDirectories read? directories id = .ok (s :: sources) ↔
      sources = [] ∧ s.id = id ∧
        ∃ path, s.path = some path ∧ Decides read? directories id path ∧ read? path = some (.ok s.text) := by
  rw [inDirectories]
  constructor
  · intro h
    split at h
    · cases h
    · rename_i path text hfirst
      cases h
      obtain ⟨hdecides, hread⟩ := firstFile?_eq_some_iff.1 hfirst
      exact ⟨rfl, rfl, path, rfl, hdecides, hread⟩
    · cases h
  · rintro ⟨rfl, rfl, path, hpath, hdecides, hread⟩
    rw [firstFile?_eq_some_iff.2 ⟨hdecides, hread⟩]
    obtain ⟨id, path', text⟩ := s
    cases hpath
    rfl

/-- The search fails if the file at the path that decides cannot be read, and in no other way. -/
theorem inDirectories_eq_error_iff {e : ResolutionError} :
    inDirectories read? directories id = .error e ↔
      ∃ path text, e = .unreadable path text ∧ Decides read? directories id path ∧
        read? path = some (.error text) := by
  rw [inDirectories]
  constructor
  · intro h
    split at h
    · cases h
    · cases h
    · rename_i path text hfirst
      cases h
      obtain ⟨hdecides, hread⟩ := firstFile?_eq_some_iff.1 hfirst
      exact ⟨path, text, rfl, hdecides, hread⟩
  · rintro ⟨path, text, rfl, hdecides, hread⟩
    rw [firstFile?_eq_some_iff.2 ⟨hdecides, hread⟩]

theorem inDirectories_eq_nil_iff : inDirectories read? directories id = .ok [] ↔
    ∀ d ∈ directories, read? (join d id) = none ∧ read? (join d (id ++ ".js")) = none := by
  rw [← no_file_iff, ← firstFile?_eq_none_iff, inDirectories]
  constructor
  · intro h
    split at h
    · assumption
    · cases h
    · cases h
  · intro h
    rw [h]

/-- Files that differ only behind the path that decides give the same. -/
theorem inDirectories_congr {read?' : String → Option (Except String String)} {tried rest : List String}
    (hdecides : Decides read? directories id path) (hsplit : candidates directories id = tried ++ rest)
    (hmem : path ∈ tried) (hsame : ∀ p ∈ tried, read?' p = read? p) :
    inDirectories read?' directories id = inDirectories read? directories id := by
  have hfile : (read? path).isSome := (decides_iff.1 hdecides).1
  have hfile' : (read?' path).isSome := by rwa [hsame path hmem]
  rw [inDirectories, inDirectories, hsplit, firstFile?_append_of_mem hmem hfile, firstFile?_append_of_mem hmem hfile',
    firstFile?_congr hsame]

/-- The first file decides which source an id has. There is just one source then, of that id and with the path and the
text of the file, unless the file cannot be read: then the search fails, for the path of that file. Nothing that comes
behind that file matters. There is no source exactly if no directory has a file of the id or of the id with its
ending. -/
theorem first_file_decides (read? : String → Option (Except String String)) (directories : List String) (id : String) :
    (∀ s sources, inDirectories read? directories id = .ok (s :: sources) ↔
      sources = [] ∧ s.id = id ∧
        ∃ path, s.path = some path ∧ Decides read? directories id path ∧ read? path = some (.ok s.text)) ∧
    (∀ e, inDirectories read? directories id = .error e ↔
      ∃ path text, e = .unreadable path text ∧ Decides read? directories id path ∧
        read? path = some (.error text)) ∧
    (inDirectories read? directories id = .ok [] ↔
      ∀ d ∈ directories, read? (join d id) = none ∧ read? (join d (id ++ ".js")) = none) ∧
    (∀ path, Decides read? directories id path →
      ∀ tried rest, candidates directories id = tried ++ rest → path ∈ tried →
        ∀ read?' : String → Option (Except String String), (∀ p ∈ tried, read?' p = read? p) →
          inDirectories read?' directories id = inDirectories read? directories id) ∧
    (∀ t : FileTree, (∀ path, read? path = decode <$> t.file? path) →
      ofDirectories t.file? directories id = inDirectories read? directories id) := by
  refine ⟨?_, ?_, inDirectories_eq_nil_iff, ?_, ?_⟩
  · intro s sources
    exact inDirectories_eq_ok_cons_iff
  · intro e
    exact inDirectories_eq_error_iff
  · intro path hdecides tried rest hsplit hmem read?' hsame
    exact inDirectories_congr hdecides hsplit hmem hsame
  · intro t ht
    rw [funext ht]
    rfl

/-- A directory of the name is passed over, and what stands behind a file that is no text is not looked at. -/
example : ofDirectories
    (FileTree.file? { entries := [
      (["a", "x"], .directory), (["a", "x.js"], .file ⟨#[0xFF]⟩), (["b", "x"], .file "later".toUTF8)] })
    ["/a", "/b"] "x" = .error (.unreadable "/a/x.js" "stream did not contain valid UTF-8") := by decide +kernel

end Scripting.Resolver
