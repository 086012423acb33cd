/-
Calls on the records of the host, by what becomes of them. A call fails for one of four reasons, each of
which is looked at only if those before it do not apply; `Verdict` says when, in terms of the registrations
so far, of what the handler gives and of the handles in it, and `call_iff_verdict` that a call comes to
nothing else. The shapes are found by the name under which they were registered, so a shape never meets a
record of another type.

A script that makes the call sees null and one complaint in the log, or an exception, or the result.
-/
import Scripting.Js.Evaluation
import Scripting.Proofs.Bridge.Results
import Scripting.Proofs.Dialogue
import Scripting.Proofs.Js.Outcome
import Mathlib.Data.List.Induction

namespace Scripting

/-! ## Registrations -/

namespace Shapes

/-- The shapes that are known after registrations, the earliest first. -/
def registered (regs : List Shape) : Shapes := regs.foldl register []

/-- The shape that was registered last under a name. -/
def latest? (regs : List Shape) (name : String) : Option Shape := regs.reverse.find? (·.name == name)

/-- Whether a shape was registered under a name. -/
def isKnown (regs : List Shape) (name : String) : Bool := regs.any (·.name == name)

variable {regs : List Shape} {name : String} {s : Shape}

theorem get?_registered (regs : List Shape) (name : String) : (registered regs).get? name = latest? regs name := by
  induction regs using List.reverseRecOn with
  | nil => rfl
  | append_singleton regs s ih =>
    have hfound : (registered (regs ++ [s])).get? name =
        if name = s.name then some s else (registered regs).get? name := by
      unfold registered get?
      rw [List.foldl_append]
      exact Assoc.find?_insert _ _ _ _
    rw [hfound, ih]
    unfold latest?
    rw [List.reverse_append, List.reverse_singleton, List.singleton_append, List.find?_cons]
    by_cases hn : s.name = name
    · simp [hn]
    · have hbeq : (s.name == name) = false := by simpa using hn
      simp only [hbeq, if_neg (Ne.symm hn)]

theorem latest?_eq_none : latest? regs name = none ↔ ∀ s ∈ regs, s.name ≠ name := by
  simp [latest?, List.find?_eq_none]

theorem name_of_latest? (h : latest? regs name = some s) : s.name = name := by
  unfold latest? at h
  have := List.find?_some h
  simpa using this

theorem contains_registered (regs : List Shape) (name : String) :
    Assoc.contains name (registered regs) = isKnown regs name := by
  have hget := get?_registered regs name
  unfold get? at hget
  unfold Assoc.contains
  rw [hget, Bool.eq_iff_iff]
  simp [latest?, isKnown]

/-- A shape that is found for a record is one for records of its type. -/
theorem invoke_ne_shapeMismatch {r : Record} (h : (registered regs).shapeOf? r = some s) (method : String)
    (args : List Value) (expected actual : String) :
    s.invoke method r args ≠ .error (.shapeMismatch expected actual) := by
  have hname : s.name = r.typeName := name_of_latest? (by rw [← get?_registered]; exact h)
  unfold Shape.invoke
  rw [if_pos hname.symm]
  split
  · rename_i f _
    cases f r args <;> simp [Except.mapError]
  · simp

end Shapes

/-! ## Handles that would get out -/

namespace Value

section

variable (known : String → Bool)

mutual

/-- The handles of a value that stand in no record of a known type. They come in the order in which a value
is gone through: items and fields one after the other, the entries of a map by the texts of their keys. -/
def looseHandles : Value → List Handle
  | .handle h => [h]
  | .record typeName fields => if known typeName then [] else looseInFields fields
  | .ordered _ items => looseInItems items
  | .keyed _ entries => ((looseInEntries entries).mergeSort fun a b => a.1 ≤ b.1).flatMap Prod.snd
  | .plural _ items => looseInItems items
  | _ => []

def looseInItems : List Value → List Handle
  | [] => []
  | v :: rest => looseHandles v ++ looseInItems rest

def looseInFields : List (String × Value) → List Handle
  | [] => []
  | (_, v) :: rest => looseHandles v ++ looseInFields rest

/-- Those of every entry, beside the text of its key. -/
def looseInEntries : List (Key × Value) → List (String × List Handle)
  | [] => []
  | (k, v) :: rest => (k.text, looseHandles v) :: looseInEntries rest

end

theorem looseInEntries_eq_map (entries : List (Key × Value)) :
    looseInEntries known entries = entries.map fun e => (e.1.text, e.2.looseHandles known) := by
  induction entries with
  | nil => rfl
  | cons e rest ih =>
    obtain ⟨k, v⟩ := e
    rw [looseInEntries, ih, List.map_cons]

end

end Value

namespace Exported

theorem firstSealedMember?_eq_findSome? (members : List (String × Exported)) :
    firstSealedMember? members = members.findSome? (·.2.firstSealed?) := by
  induction members with
  | nil => rfl
  | cons m rest ih =>
    obtain ⟨n, e⟩ := m
    rw [firstSealedMember?, ih, List.findSome?_cons]
    cases e.firstSealed? <;> rfl

variable {shapes : Shapes}

/-- The type of the first of a list of handles. -/
def firstType? (handles : List Handle) : Option String := handles.head?.map (·.typeName)

theorem firstType?_append (front back : List Handle) :
    firstType? (front ++ back) = (firstType? front).or (firstType? back) := by
  cases front <;> rfl

/-- The first in a list of entries is the first in the first of them that has one. -/
theorem firstSealedMember?_map {known : String → Bool} {entries : List (Key × Value)}
    (h : ∀ e ∈ entries, (ofValue shapes e.2).firstSealed? = firstType? (e.2.looseHandles known)) :
    firstSealedMember? (entries.map fun e => (e.1.text, ofValue shapes e.2)) =
      firstType? ((entries.map fun e => (e.1.text, e.2.looseHandles known)).flatMap Prod.snd) := by
  induction entries with
  | nil => rfl
  | cons e rest ih =>
    have hrest := ih fun e' he => h e' (List.mem_cons_of_mem _ he)
    rw [List.map_cons, firstSealedMember?, h e List.mem_cons_self, hrest, List.map_cons, List.flatMap_cons,
      firstType?_append]

/-- The members of a map, and the handles in them, are put in order by the same texts. -/
theorem firstSealedMember?_sortMembers {known : String → Bool} {entries : List (Key × Value)}
    (h : ∀ e ∈ entries, (ofValue shapes e.2).firstSealed? = firstType? (e.2.looseHandles known)) :
    firstSealedMember? (sortMembers (ofEntries shapes entries)) =
      firstType? (((Value.looseInEntries known entries).mergeSort fun a b => a.1 ≤ b.1).flatMap Prod.snd) := by
  -- both lists come from the entries in the order of their texts
  have hmembers : sortMembers (ofEntries shapes entries) =
      (entries.mergeSort fun a b => a.1.text ≤ b.1.text).map fun e => (e.1.text, ofValue shapes e.2) := by
    rw [sortMembers, ofEntries_eq_map]
    refine (List.map_mergeSort fun a _ b _ => ?_).symm
    rw [← decide_not, decide_eq_decide]
    exact String.not_lt.symm
  have hhandles : ((Value.looseInEntries known entries).mergeSort fun a b => a.1 ≤ b.1) =
      (entries.mergeSort fun a b => a.1.text ≤ b.1.text).map fun e => (e.1.text, e.2.looseHandles known) := by
    rw [Value.looseInEntries_eq_map]
    refine (List.map_mergeSort fun a _ b _ => ?_).symm
    rfl
  rw [hmembers, hhandles]
  exact firstSealedMember?_map fun e he => h e (List.mem_mergeSort.1 he)

mutual

/-- The search in the tree of a value finds the first of its handles that would get out. -/
theorem firstSealed?_ofValue : ∀ v : Value,
    (ofValue shapes v).firstSealed? = firstType? (v.looseHandles fun n => Assoc.contains n shapes)
  | .void | .bool _ | .int _ | .float _ | .string _ | .handle _ => rfl
  | .record typeName fields => by
    rw [ofValue, Value.looseHandles]
    by_cases hs : Assoc.contains typeName shapes = true
    · rw [if_pos hs, if_pos hs]
      rfl
    · rw [if_neg hs, if_neg hs, firstSealed?, firstSealedMember?_eq_findSome?, List.findSome?_append,
        ← firstSealedMember?_eq_findSome?, firstSealedMember?_ofFields fields]
      exact Option.or_none
  | .ordered _ items | .plural _ items => by
    rw [ofValue, Value.looseHandles, firstSealed?, firstSealedItem?_ofItems items]
  | .keyed _ entries => by
    rw [ofValue, Value.looseHandles, firstSealed?]
    exact firstSealedMember?_sortMembers (firstSealed?_ofEntries entries)

theorem firstSealedItem?_ofItems : ∀ items : List Value, firstSealedItem? (ofItems shapes items) =
    firstType? (Value.looseInItems (fun n => Assoc.contains n shapes) items)
  | [] => rfl
  | v :: rest => by
    rw [ofItems, firstSealedItem?, firstSealed?_ofValue v, firstSealedItem?_ofItems rest, Value.looseInItems,
      firstType?_append]

theorem firstSealedMember?_ofFields : ∀ fields : List (String × Value),
    firstSealedMember? (ofFields shapes fields) =
      firstType? (Value.looseInFields (fun n => Assoc.contains n shapes) fields)
  | [] => rfl
  | (_, v) :: rest => by
    rw [ofFields, firstSealedMember?, firstSealed?_ofValue v, firstSealedMember?_ofFields rest, Value.looseInFields,
      firstType?_append]

theorem firstSealed?_ofEntries : ∀ entries : List (Key × Value), ∀ e ∈ entries,
    (ofValue shapes e.2).firstSealed? = firstType? (e.2.looseHandles fun n => Assoc.contains n shapes)
  | [] => nofun
  | (_, v) :: rest => List.forall_mem_cons.2 ⟨firstSealed?_ofValue v, firstSealed?_ofEntries rest⟩

end

/-- Only void becomes null. -/
theorem ofValue_eq_null_iff {v : Value} : ofValue shapes v = null ↔ v = .void := by
  constructor
  · intro h
    cases v with
    | void => rfl
    | record typeName fields =>
      rw [ofValue] at h
      split at h <;> cases h
    | _ => simp [ofValue, null] at h
  · rintro rfl
    rfl

end Exported

/-! ## Calls -/

namespace Shapes

open Exported

section

variable (regs : List Shape) (method : String)

/-- A call on a record goes to a handler: the one that the latest shape for the record's type has for the
method. -/
def Dispatches (r : Record) (f : Handler) : Prop :=
  ∃ s, latest? regs r.typeName = some s ∧ Assoc.find? method s.methods = some f

/-- What becomes of a call with arguments, and when. -/
inductive Verdict (args : List Value) : Exported → Except BridgeError Exported → Prop
  /-- It is no call on a record of a type that was registered. -/
  | notWrapped {this : Exported} : (∀ r, this = .wrapped r → ∀ s ∈ regs, s.name ≠ r.typeName) →
      Verdict args this (.error (.notWrapped method))
  /-- The latest shape for the record's type does not have the method. -/
  | unknownMethod {r : Record} {s : Shape} : latest? regs r.typeName = some s → s.hasMethod method = false →
      Verdict args (.wrapped r) (.error (.unknownMethod r.typeName method))
  /-- The handler fails. -/
  | handler {r : Record} {f : Handler} {text : String} : Dispatches regs method r f → f r args = .error text →
      Verdict args (.wrapped r) (.error (.handler method text))
  /-- The result has handles that would get out; the first of them is named. -/
  | leak {r : Record} {f : Handler} {v : Value} {h : Handle} {rest : List Handle} : Dispatches regs method r f →
      f r args = .ok v → v.looseHandles (isKnown regs) = h :: rest →
      Verdict args (.wrapped r) (.error (.leak method h.typeName))
  | ok {r : Record} {f : Handler} {v : Value} : Dispatches regs method r f → f r args = .ok v →
      v.looseHandles (isKnown regs) = [] → Verdict args (.wrapped r) (.ok (.ofValue (registered regs) v))

end

variable {regs : List Shape} {method : String} {args : List Value} {r : Record}

/-- What is handed out of a value depends on the first handle that would get out. -/
theorem exported_registered (regs : List Shape) (method : String) (v : Value) : (registered regs).exported method v =
    match v.looseHandles (isKnown regs) with
    | h :: _ => .error (.leak method h.typeName)
    | [] => .ok (.ofValue (registered regs) v) := by
  have hknown : (fun n => Assoc.contains n (registered regs)) = isKnown regs :=
    funext (contains_registered regs)
  have hfirst : (ofValue (registered regs) v).firstSealed? = _ := firstSealed?_ofValue v
  rw [hknown] at hfirst
  unfold exported
  simp only [hfirst]
  cases v.looseHandles (isKnown regs) <;> rfl

theorem call_of_latest?_none (h : latest? regs r.typeName = none) :
    (registered regs).call method (.wrapped r) args = .error (.notWrapped method) := by
  unfold call shapeOf?
  simp only [get?_registered, h]

theorem call_of_not_hasMethod {s : Shape} (hs : latest? regs r.typeName = some s) (hm : s.hasMethod method = false) :
    (registered regs).call method (.wrapped r) args = .error (.unknownMethod r.typeName method) := by
  have hfind : Assoc.find? method s.methods = none := by simpa [Shape.hasMethod, Assoc.contains] using hm
  unfold call shapeOf? Shape.invoke
  simp only [get?_registered, hs, name_of_latest? hs, if_true, hfind]

theorem call_of_dispatches {f : Handler} (hd : Dispatches regs method r f) :
    (registered regs).call method (.wrapped r) args =
      match f r args with
      | .error text => .error (.handler method text)
      | .ok v => (registered regs).exported method v := by
  obtain ⟨s, hs, hfind⟩ := hd
  unfold call shapeOf? Shape.invoke
  simp only [get?_registered, hs, name_of_latest? hs, if_true, hfind]
  cases f r args <;> rfl

/-- A call comes to what its verdict is, and to nothing else. -/
theorem call_iff_verdict {this : Exported} {res : Except BridgeError Exported} :
    (registered regs).call method this args = res ↔ Verdict regs method args this res := by
  constructor
  · rintro rfl
    cases this with
    | wrapped r =>
      cases hs : latest? regs r.typeName with
      | none =>
        rw [call_of_latest?_none hs]
        refine .notWrapped fun r' hr s hmem => ?_
        cases hr
        exact latest?_eq_none.1 hs s hmem
      | some s =>
        cases hfind : Assoc.find? method s.methods with
        | none =>
          have hm : s.hasMethod method = false := by simp [Shape.hasMethod, Assoc.contains, hfind]
          rw [call_of_not_hasMethod hs hm]
          exact .unknownMethod hs hm
        | some f =>
          have hd : Dispatches regs method r f := ⟨s, hs, hfind⟩
          rw [call_of_dispatches hd]
          cases hf : f r args with
          | error text => exact .handler hd hf
          | ok v =>
            simp only [exported_registered]
            cases hl : v.looseHandles (isKnown regs) with
            | nil => exact .ok hd hf hl
            | cons h rest => exact .leak hd hf hl
    | _ => exact .notWrapped nofun
  · intro hv
    cases hv with
    | notWrapped h =>
      cases this with
      | wrapped r => exact call_of_latest?_none (latest?_eq_none.2 (h r rfl))
      | _ => rfl
    | unknownMethod hs hm => exact call_of_not_hasMethod hs hm
    | handler hd hf => rw [call_of_dispatches hd, hf]
    | leak hd hf hl => simp only [call_of_dispatches hd, hf, exported_registered, hl]
    | ok hd hf hl => simp only [call_of_dispatches hd, hf, exported_registered, hl]

end Shapes

/-! ## What a script sees -/

namespace Js.Run

open Shapes

/-- What a script sees of a call that it made: what else is said from a machine on, how the run ends, and on
which machine. -/
def Seen (method : String) (m : Machine) (said : Dialogue) (r : Except Abrupt Value) (m' : Machine) :
    Except BridgeError Exported → Prop
  | .ok e => (write e).Ends m said r m'
  | .error (.notWrapped _) | .error (.leak ..) =>
    said = [⟨.log (Log.error "Bridge call failed" [("method", method)]), ()⟩] ∧ r = .ok .null ∧ m' = m
  | .error e =>
    said = [] ∧ r = .error (.thrown (.object (m.heap.allocateError .error e.message).1)) ∧
      m' = { m with heap := (m.heap.allocateError .error e.message).2 }

variable {ev : Evaluator} {method : String} {m m' : Machine} {said : Dialogue}

/-- A complaint is made, and null is handed to the script. -/
theorem ends_complaint_iff {complaint : Log.Event} {r : Except Abrupt Value} :
    (do log complaint; return .null : Run Value).Ends m said r m' ↔
      said = [⟨.log complaint, ()⟩] ∧ r = .ok .null ∧ m' = m := by
  constructor
  · intro h
    have h : (Routine.ask (.log complaint) fun _ => .done (.ok .null, m)).Ends said (r, m') := h
    cases h with
    | ask h =>
      cases h
      exact ⟨rfl, rfl, rfl⟩
  · rintro ⟨rfl, rfl, rfl⟩
    exact .ask (.done _)

theorem receive_iff_seen {res : Except BridgeError Exported} {r : Except Abrupt Value} :
    (receive res (Log.error "Bridge call failed" [("method", method)])).Ends m said r m' ↔
      Seen method m said r m' res := by
  cases res with
  | ok e => exact Iff.rfl
  | error e =>
    cases e with
    | notWrapped | leak => exact ends_complaint_iff
    | unknownMethod | handler => exact ends_fail_iff

/-- Nothing but void is written as null. -/
theorem eq_null_of_write {e : Exported} (h : (write e).Ends m said (.ok .null) m') : e = Exported.null := by
  cases e with
  | scalar v =>
    rw [write] at h
    cases v with
    | void => rfl
    | _ => cases h
  | array items =>
    rw [write] at h
    obtain ⟨_, _, _, _, _, _, h⟩ := h.of_bind
    cases h
  | object members =>
    rw [write] at h
    obtain ⟨_, _, _, _, _, _, h⟩ := h.of_bind
    obtain ⟨_, _, _, _, _, _, h⟩ := h.of_bind
    cases h
  | wrapped r =>
    rw [write, wrap] at h
    obtain ⟨_, _, _, _, _, _, h⟩ := h.of_bind
    obtain ⟨_, _, _, _, _, _, h⟩ := h.of_bind
    obtain ⟨_, _, _, _, _, _, h⟩ := h.of_bind
    obtain ⟨_, _, _, _, _, _, h⟩ := h.of_bind
    cases h
  | sealed typeName =>
    rw [write] at h
    cases h

variable {regs : List Shape} {this : Js.Value} {args : List Js.Value} {asked : Dialogue} {values : List Scripting.Value}

/-- Of a list, what goes well element by element goes well with another run that gives the same then. -/
theorem Ends.mapM_imp {β γ : Type} {g g' : γ → Run β} {l : List γ} {bs : List β}
    (hg : ∀ c m said b m', (g c).Ends m said (.ok b) m' → (g' c).Ends m said (.ok b) m')
    (h : (l.mapM g).Ends m said (.ok bs) m') : (l.mapM g').Ends m said (.ok bs) m' := by
  induction l generalizing m said bs m' with
  | nil => exact h
  | cons c rest ih =>
    rw [List.mapM_cons] at h ⊢
    obtain ⟨said, rest, b, m1, rfl, hc, h⟩ := h.of_bind
    obtain ⟨said', rest', bs', m2, rfl, hrest, h⟩ := h.of_bind
    exact (hg _ _ _ _ _ hc).bind ((ih hrest).bind h)

/-- Where the arguments can be read, that they are those of a call makes no difference. -/
theorem ends_readArguments (hread : (args.mapM (read ev)).Ends m asked (.ok values) m') :
    (args.mapM (readArgument ev)).Ends m asked (.ok values) m' :=
  hread.mapM_imp fun _ _ _ _ _ h => h.tryCatch_ok _

/-- A call whose arguments can be read is seen as what it comes to on what the script called it on. -/
theorem ends_callMethod_iff (hread : (args.mapM (read ev)).Ends m asked (.ok values) m') {r : Except Abrupt Value}
    {m'' : Machine} :
    (callMethod ev method this args).Ends m (asked ++ ⟨.shapes, registered regs⟩ :: said) r m'' ↔
      Seen method m' said r m'' ((registered regs).call method (receiver m.heap this) values) := by
  -- the receiver is looked at before the arguments are read, the shapes are asked for after it
  have hfirst : (callMethod ev method this args).Ends m (asked ++ ⟨.shapes, registered regs⟩ :: said) r m'' ↔ _ :=
    heap_bind_iff
  rw [hfirst, (ends_readArguments hread).bind_iff, ask_bind_iff]
  exact receive_iff_seen

/-- Null is seen of a call that is refused in this way, or of one whose handler gave void. -/
theorem null_of_seen {target : Exported} {res : Except BridgeError Exported} {m'' : Machine}
    (hv : Verdict regs method values target res) (hseen : Seen method m' said (.ok .null) m'' res) :
    (∃ name, res = .error (.notWrapped name)) ∨ (∃ name typeName, res = .error (.leak name typeName)) ∨
      ∃ record f, target = .wrapped record ∧ Dispatches regs method record f ∧ f record values = .ok .void := by
  cases hv with
  | notWrapped _ => exact .inl ⟨method, rfl⟩
  | leak _ _ _ => exact .inr (.inl ⟨method, _, rfl⟩)
  | unknownMethod _ _ =>
    obtain ⟨_, hthrown, _⟩ := hseen
    cases hthrown
  | handler _ _ =>
    obtain ⟨_, hthrown, _⟩ := hseen
    cases hthrown
  | @ok record f v hd hf _ =>
    have hvoid : v = .void := Exported.ofValue_eq_null_iff.1 (eq_null_of_write hseen)
    refine .inr (.inr ⟨record, f, rfl, hd, ?_⟩)
    rw [hf, hvoid]

/-- The calls of a method, with any shapes registered: a call comes to its verdict and to nothing else, a shape
that is found for a record is never one for other records, and a script whose arguments can be read sees what
the verdict says, with null for no other reason than a refusal or a void result. -/
theorem calls_classified (regs : List Shape) (method : String) :
    (∀ this args res, (registered regs).call method this args = res ↔ Verdict regs method args this res) ∧
      (∀ record s, (registered regs).shapeOf? record = some s → ∀ name args expected actual,
        s.invoke name record args ≠ .error (.shapeMismatch expected actual)) ∧
      ∀ (ev : Evaluator) (this : Js.Value) (args : List Js.Value) (m m' : Machine) (asked : Dialogue)
        (values : List Scripting.Value), (args.mapM (read ev)).Ends m asked (.ok values) m' →
        ∀ res, Verdict regs method values (receiver m.heap this) res → ∀ said r m'',
          ((callMethod ev method this args).Ends m (asked ++ ⟨.shapes, registered regs⟩ :: said) r m'' ↔
            Seen method m' said r m'' res) ∧
          (Seen method m' said r m'' res → r = .ok .null →
            (∃ name, res = .error (.notWrapped name)) ∨ (∃ name typeName, res = .error (.leak name typeName)) ∨
              ∃ record f, receiver m.heap this = .wrapped record ∧ Dispatches regs method record f ∧
                f record values = .ok .void) := by
  refine ⟨fun this args res => call_iff_verdict, ?_, ?_⟩
  · intro record s hs name args expected actual
    exact invoke_ne_shapeMismatch hs name args expected actual
  · intro ev this args m m' asked values hread res hv said r m''
    constructor
    · rw [← call_iff_verdict.2 hv]
      exact ends_callMethod_iff hread
    · rintro hseen rfl
      exact null_of_seen hv hseen

/-- The shape of points, and another in its place that lends out a socket. -/
def lenders : List Shape :=
  [{ name := "Point" }, ({ name := "Point" } : Shape).method "lend" fun _ _ => .ok (.handle (.numbered 1 "Socket"))]

/-- A machine whose first object is a point. -/
def pointMachine : Machine := { heap := (({} : Heap).allocate { sort := .record ⟨"Point", []⟩ }).2 }

theorem calls_lending : Verdict lenders "lend" [.bool true] (receiver pointMachine.heap (.object 0))
      (.error (.leak "lend" "Socket")) ∧
    (callMethod (evaluator 0) "lend" (.object 0) [.bool true]).Ends pointMachine
      [⟨.shapes, registered lenders⟩, ⟨.log (Log.error "Bridge call failed" [("method", "lend")]), ()⟩]
      (.ok .null) pointMachine := by
  have hclassified := calls_classified lenders "lend"
  have hverdict := (hclassified.1 (receiver pointMachine.heap (.object 0)) [.bool true] _).1
    (show _ = .error (.leak "lend" "Socket") from rfl)
  have hread : ([Js.Value.bool true].mapM (read (evaluator 0))).Ends pointMachine [] (.ok [.bool true]) pointMachine :=
    .done _
  exact ⟨hverdict, (hclassified.2.2 _ (.object 0) _ _ _ _ _ hread _ hverdict _ _ _).1.2 ⟨rfl, rfl, rfl⟩⟩

end Js.Run

end Scripting
