/-
Where sources come from. A path leads to a place by its parts alone, and where it leads to a file the walk through
the tree ends at that place. The path of a source is that of a search directory joined with the id or with the id and
its ending; it leads to or below the place of the directory exactly if the id has no slash in front and names again
whatever it has left of the directory (`lies_below_unless_left`).
-/
import Scripting.Proofs.Route
import Scripting.Source.Basic
import Mathlib.Data.String.Basic

namespace Scripting

/-! ## Places of paths -/

namespace FileTree

/-- A part that leads nowhere else. -/
def isHere (part : String) : Bool := part == "" || part == "."

/-- A part that leads back to the directory above. -/
def isUp (part : String) : Bool := part == ".."

/-- The place that a path leads to by its parts alone, where relative paths start from a place. -/
def place (here : List String) (path : String) : List String :=
  (parts path).foldl (follow isHere isUp) (if path.startsWith "/" then [] else here)

variable {t : FileTree} {start goal here : List String} {path directory name : String}

theorem follow_here {part : String} (h : part = "" ∨ part = ".") (start : List String) :
    follow isHere isUp start part = start := by
  rcases h with rfl | rfl
  · rfl
  · rfl

theorem follow_name {part : String} (h : ¬ (part = "" ∨ part = ".")) (hup : part ≠ "..") (start : List String) :
    follow isHere isUp start part = start ++ [part] := by
  rw [not_or] at h
  unfold follow isHere isUp
  rw [if_neg (by simpa using hup), if_neg (by simpa using h)]

/-- A walk through a tree ends where the parts of the path lead. -/
theorem walk_eq_some {ps : List String} (h : t.walk start ps = some goal) :
    goal = ps.foldl (follow isHere isUp) start := by
  induction ps generalizing start with
  | nil =>
    unfold walk at h
    split at h
    · cases h
      rfl
    · cases h
  | cons part rest ih =>
    unfold walk at h
    simp only [Bool.or_eq_true, decide_eq_true_eq] at h
    rw [List.foldl_cons]
    split at h
    · cases h
    · split at h
      · rename_i hhere
        rw [follow_here hhere]
        exact ih h
      · rename_i hhere
        split at h
        · rename_i hup
          subst hup
          exact ih h
        · rename_i hup
          rw [follow_name hhere hup]
          exact ih h

/-- Where a path leads to a file, the file stands at the place of the path. -/
theorem node?_of_file? {content : ByteArray} (h : t.file? path = some content) :
    t.node? (place [] path) = some (.file content) := by
  unfold file? at h
  split at h
  · rename_i node hnode
    cases h
    obtain ⟨goal, hwalk, hgoal⟩ := Option.bind_eq_some_iff.1 hnode
    rw [walk_eq_some hwalk] at hgoal
    unfold place
    rwa [ite_self]
  · cases h

theorem parts_eq (path : String) : parts path = (path.toList.splitOnP (· == '/')).map String.ofList :=
  String.splitToList_of_valid path _

/-- The parts of a path are those in front of a slash and those behind it. -/
theorem parts_append (front back : String) : parts (front ++ "/" ++ back) = parts front ++ parts back := by
  rw [parts_eq, parts_eq, parts_eq, String.toList_append, String.toList_append, List.append_assoc]
  show ((front.toList ++ '/' :: back.toList).splitOnP _).map _ = _
  rw [List.splitOnP_append_cons _ _ rfl, List.map_append]

theorem startsWith_append {front : String} (h : front ≠ "") (back : String) :
    (front ++ back).startsWith "/" = front.startsWith "/" := by
  rw [Bool.eq_iff_iff, String.startsWith_string_iff, String.startsWith_string_iff, String.toList_append]
  cases hfront : front.toList with
  | nil => exact absurd (String.toList_eq_nil_iff.1 hfront) h
  | cons c rest => simp

theorem join_absolute (h : name.startsWith "/" = true) : join directory name = name := by
  unfold join
  rw [h]
  rfl

/-- A relative path that is joined to a directory is followed from the place of the directory. -/
theorem place_join (h : name.startsWith "/" = false) :
    place here (join directory name) = (parts name).foldl (follow isHere isUp) (place here directory) := by
  have hempty : parts "" = [""] := by
    rw [parts_eq]
    rfl
  unfold join
  rw [h, Bool.false_or]
  split
  · rename_i hnone
    obtain rfl := String.isEmpty_iff.1 hnone
    unfold place
    rw [h, hempty]
    rfl
  · rename_i hsome
    have hne : directory ≠ "" := fun hd => hsome (String.isEmpty_iff.2 hd)
    unfold place
    split
    · -- the slash at the end of the directory is the one in front of the path
      rename_i hend
      obtain ⟨front, hfront⟩ := String.Slice.endsWith_string_iff.1 hend
      rw [String.copy_toSlice] at hfront
      have hdirectory : directory = String.ofList front ++ "/" := by
        rw [← String.toList_inj, String.toList_append, String.toList_ofList]
        exact hfront.symm
      have hparts : parts directory = parts (String.ofList front) ++ [""] := by
        rw [hdirectory, ← String.append_empty (s := String.ofList front ++ "/"), parts_append, hempty]
      rw [startsWith_append hne, hparts, List.foldl_append]
      rw [hdirectory, parts_append, List.foldl_append]
      rfl
    · rw [String.append_assoc, startsWith_append hne, ← String.append_assoc, parts_append, List.foldl_append]

/-- A path leads to the place of a directory or to one below it. -/
def LiesIn (here : List String) (path directory : String) : Prop := place here directory <+: place here path

instance : Decidable (LiesIn here path directory) :=
  inferInstanceAs (Decidable (place here directory <+: place here path))

/-- How far a path leads up, and where it leads then. -/
def route (path : String) : Route := .ofParts isHere isUp (parts path)

/-- A relative path that is joined to a directory stays in it exactly if it names again what it has left of it. -/
theorem liesIn_join_iff (h : name.startsWith "/" = false) : LiesIn here (join directory name) directory ↔
    (place here directory).drop ((place here directory).length - (route name).up) <+: (route name).down := by
  unfold LiesIn route
  rw [place_join h, Route.foldl_follow, Route.prefix_target_iff]

/-- A relative path that nowhere has more steps back than names stays in the directory that it is joined to. -/
theorem liesIn_join (h : name.startsWith "/" = false)
    (hnames : ∀ front, front <+: parts name → Route.backs isUp front ≤ Route.names isHere isUp front) :
    LiesIn here (join directory name) directory := by
  have hup : (route name).up = 0 := Route.up_eq_zero_iff.2 hnames
  rw [liesIn_join_iff h, hup, Nat.sub_zero, List.drop_length]
  exact List.nil_prefix

end FileTree

/-! ## Sources -/

namespace Resolver

open FileTree

variable {file? : String → Option ByteArray} {directories : List String} {id : String} {sources : List Source} {s : Source}

theorem decode_eq_ok_iff {content : ByteArray} {text : String} :
    decode content = .ok text ↔ String.fromUTF8? content = some text := by
  unfold decode
  cases String.fromUTF8? content with
  | none => simp
  | some text' => simp

/-- A source comes from the file whose path is a directory joined with the id, or with the id and its ending. -/
theorem joined_of_mem (h : ofDirectories file? directories id = .ok sources) (hs : s ∈ sources) :
    ∃ directory ∈ directories, ∃ name, (name = id ∨ name = id ++ ".js") ∧ s.path = some (join directory name) ∧
      ∃ content, file? (join directory name) = some content ∧ String.fromUTF8? content = some s.text := by
  unfold ofDirectories inDirectories firstFile? at h
  simp only at h
  split at h
  · cases h
    cases hs
  · rename_i path text hfound
    cases h
    obtain rfl := List.mem_singleton.1 hs
    obtain ⟨candidate, hcandidate, hread⟩ := List.exists_of_findSome?_eq_some hfound
    obtain ⟨r, hread, heq⟩ := Option.map_eq_some_iff.1 hread
    obtain ⟨content, hfile, hdecode⟩ := Option.map_eq_some_iff.1 hread
    cases heq
    have htext := decode_eq_ok_iff.1 hdecode
    obtain ⟨directory, hmem, hpath⟩ := List.mem_flatMap.1 hcandidate
    simp only [List.mem_cons, List.not_mem_nil, or_false] at hpath
    rcases hpath with rfl | rfl
    · exact ⟨directory, hmem, id, .inl rfl, rfl, content, hfile, htext⟩
    · exact ⟨directory, hmem, id ++ ".js", .inr rfl, rfl, content, hfile, htext⟩
  · cases h

/-- A source comes from a search directory: its path is that of the directory joined with the id or with the id and
its ending, and it is read from the file at the place of that path. A name with a slash in front leads there by
itself, whatever the directory is. Any other stays in the directory if it nowhere has more steps back than names, and
exactly if it names again what it has left of the directory. -/
theorem lies_in_unless_left (h : ofDirectories file? directories id = .ok sources) (hs : s ∈ sources) :
    ∃ directory ∈ directories, ∃ name path, (name = id ∨ name = id ++ ".js") ∧ path = join directory name ∧
      s.path = some path ∧
      (∀ t : FileTree, file? = t.file? →
        ∃ content, t.node? (place [] path) = some (.file content) ∧ String.fromUTF8? content = some s.text) ∧
      ∀ here,
        (name.startsWith "/" = true → place here path = place [] name) ∧
        (name.startsWith "/" = false →
          ((∀ front, front <+: parts name → Route.backs isUp front ≤ Route.names isHere isUp front) →
            LiesIn here path directory) ∧
          (LiesIn here path directory ↔
            (place here directory).drop ((place here directory).length - (route name).up) <+: (route name).down)) := by
  obtain ⟨directory, hmem, name, hname, hpath, content, hfile, htext⟩ := joined_of_mem h hs
  refine ⟨directory, hmem, name, _, hname, rfl, hpath, ?_, fun here => ⟨fun habsolute => ?_, fun hrelative => ?_⟩⟩
  · rintro t rfl
    exact ⟨content, node?_of_file? hfile, htext⟩
  · rw [join_absolute habsolute]
    unfold place
    rw [habsolute]
    rfl
  · exact ⟨liesIn_join hrelative, liesIn_join_iff hrelative⟩

/-- A tree with a script in a directory for them and another beside the directory. -/
def shelf : FileTree where
  entries := [
    (["scripts", "lib"], .directory), (["scripts", "relay.js"], .file "relay".toUTF8), (["top.js"], .file "top".toUTF8)]

/-- An id that leads back only from where it has gone stays in the directory. -/
theorem relay_stays : ofDirectories shelf.file? ["/scripts"] "lib/../relay" =
      .ok [{ id := "lib/../relay", path := some "/scripts/lib/../relay.js", text := "relay" }] ∧
    LiesIn [] "/scripts/lib/../relay.js" "/scripts" := by
  have hfound : ofDirectories shelf.file? ["/scripts"] "lib/../relay" =
      .ok [{ id := "lib/../relay", path := some "/scripts/lib/../relay.js", text := "relay" }] := by
    decide +kernel
  refine ⟨hfound, ?_⟩
  obtain ⟨directory, hmem, name, path, hname, -, hpath, -, hplace⟩ :=
    lies_in_unless_left hfound (List.mem_singleton.2 rfl)
  cases hpath
  obtain rfl := List.mem_singleton.1 hmem
  rcases hname with rfl | rfl
  · exact ((hplace []).2 (by decide +kernel)).2.2 (by decide +kernel)
  · exact ((hplace []).2 (by decide +kernel)).2.2 (by decide +kernel)

/-- An id that leads above the directory and one with a slash in front find a file that no directory holds. -/
theorem found_outside :
    ofDirectories shelf.file? ["/scripts"] "../top" =
        .ok [{ id := "../top", path := some "/scripts/../top.js", text := "top" }] ∧
      ¬ LiesIn [] "/scripts/../top.js" "/scripts" ∧
      ofDirectories shelf.file? ["/scripts"] "/top" = .ok [{ id := "/top", path := some "/top.js", text := "top" }] ∧
      ¬ LiesIn [] "/top.js" "/scripts" := by
  refine ⟨?_, ?_, ?_, ?_⟩
  · decide +kernel
  · decide +kernel
  · decide +kernel
  · decide +kernel

end Resolver

end Scripting
