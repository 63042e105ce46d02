import AsmIndex.Cache
import Mathlib.Data.List.Nodup
import Mathlib.Logic.Relation

namespace AsmIndex

abbrev View := Uri → Option Entry

namespace View

def Depends (view : View) (source target : Uri) : Prop :=
  ∃ entry, view source = some entry ∧ target ∈ entry.dependencies

/-- Some walk leads from the one document to the other, through documents that hold something. -/
def Reaches (view : View) : Uri → Uri → Prop :=
  Relation.ReflTransGen view.Depends

def trail? (view : View) : Uri → List Nat → Option (List Uri)
  | uri, [] => (view uri).map fun _ => [uri]
  | uri, position :: route => do
    let entry ← view uri
    let next ← entry.dependencies[position]?
    let rest ← view.trail? next route
    return uri :: rest

def arrival? (view : View) (uri : Uri) (route : List Nat) : Option Uri :=
  (view.trail? uri route).bind List.getLast?

def SimpleWithin (view : View) (allowed : Uri → Prop) (uri : Uri) (route : List Nat) : Prop :=
  ∃ trail, view.trail? uri route = some trail ∧ trail.Nodup ∧ ∀ place ∈ trail, allowed place

/-- The route can be followed and comes to no document twice. -/
def Simple (view : View) (uri : Uri) (route : List Nat) : Prop :=
  ∃ trail, view.trail? uri route = some trail ∧ trail.Nodup

/-- All simple routes in depth-first preorder. -/
structure PreorderListing (view : View) (uri : Uri) (routes : List (List Nat)) : Prop where
  ordered : routes.Pairwise (· < ·)
  complete : ∀ route, route ∈ routes ↔ view.Simple uri route

theorem trail?_nil_iff (view : View) (uri : Uri) (trail : List Uri) :
    view.trail? uri [] = some trail ↔ (∃ entry, view uri = some entry) ∧ trail = [uri] := by
  cases found : view uri <;> simp [trail?, found, eq_comm]

theorem trail?_cons_iff (view : View) (uri : Uri) (position : Nat) (route : List Nat)
    (trail : List Uri) :
    view.trail? uri (position :: route) = some trail ↔
      ∃ entry next rest, view uri = some entry ∧ entry.dependencies[position]? = some next ∧
        view.trail? next route = some rest ∧ trail = uri :: rest := by
  simp only [trail?, bind, Option.bind_eq_some_iff, pure, Option.some.injEq]
  constructor
  · rintro ⟨entry, found, next, taken, rest, followed, rfl⟩
    exact ⟨entry, next, rest, found, taken, followed, rfl⟩
  · rintro ⟨entry, next, rest, found, taken, followed, rfl⟩
    exact ⟨entry, found, next, taken, rest, followed, rfl⟩

theorem simpleWithin_nil_iff (view : View) (allowed : Uri → Prop) (uri : Uri) :
    view.SimpleWithin allowed uri [] ↔ allowed uri ∧ ∃ entry, view uri = some entry := by
  constructor
  · rintro ⟨trail, followed, _, within⟩
    obtain ⟨found, rfl⟩ := (view.trail?_nil_iff uri trail).mp followed
    exact ⟨within uri (by simp), found⟩
  · rintro ⟨within, found⟩
    exact ⟨[uri], (view.trail?_nil_iff uri _).mpr ⟨found, rfl⟩, by simp, by simpa using within⟩

theorem simpleWithin_cons_iff (view : View) (allowed : Uri → Prop) (uri : Uri) (position : Nat)
    (route : List Nat) :
    view.SimpleWithin allowed uri (position :: route) ↔
      allowed uri ∧ ∃ entry next, view uri = some entry ∧
        entry.dependencies[position]? = some next ∧
        view.SimpleWithin (fun place => allowed place ∧ place ≠ uri) next route := by
  constructor
  · rintro ⟨trail, followed, distinct, within⟩
    obtain ⟨entry, next, rest, found, taken, onward, rfl⟩ :=
      (view.trail?_cons_iff uri position route trail).mp followed
    have fresh := (List.nodup_cons.mp distinct).1
    refine ⟨within uri (by simp), entry, next, found, taken, rest, onward,
      (List.nodup_cons.mp distinct).2, ?_⟩
    intro place member
    exact ⟨within place (List.mem_cons_of_mem _ member), fun same => fresh (same ▸ member)⟩
  · rintro ⟨here, entry, next, found, taken, rest, followed, distinct, within⟩
    refine ⟨uri :: rest, (view.trail?_cons_iff uri position route _).mpr
      ⟨entry, next, rest, found, taken, followed, rfl⟩, ?_, ?_⟩
    · exact List.nodup_cons.mpr ⟨fun member => (within uri member).2 rfl, distinct⟩
    · intro place member
      rcases List.mem_cons.mp member with rfl | member
      · exact here
      · exact (within place member).1

theorem simpleWithin_true_iff (view : View) (uri : Uri) (route : List Nat) :
    view.SimpleWithin (fun _ => True) uri route ↔ view.Simple uri route := by
  simp [SimpleWithin, Simple]

theorem SimpleWithin.mono {view : View} {allowed wider : Uri → Prop} {uri : Uri}
    {route : List Nat} (simple : view.SimpleWithin allowed uri route)
    (widens : ∀ place, allowed place → wider place) : view.SimpleWithin wider uri route := by
  obtain ⟨trail, followed, distinct, within⟩ := simple
  exact ⟨trail, followed, distinct, fun place member => widens place (within place member)⟩

theorem trail?_ne_nil {view : View} {uri : Uri} {route : List Nat} {trail : List Uri}
    (followed : view.trail? uri route = some trail) : trail ≠ [] := by
  cases route with
  | nil =>
    obtain ⟨_, rfl⟩ := (view.trail?_nil_iff uri trail).mp followed
    simp
  | cons position route =>
    obtain ⟨_, _, rest, _, _, _, rfl⟩ :=
      (view.trail?_cons_iff uri position route trail).mp followed
    simp

theorem arrival?_nil {view : View} {uri : Uri} {entry : Entry} (found : view uri = some entry) :
    view.arrival? uri [] = some uri := by
  simp [arrival?, trail?, found]

theorem arrival?_cons {view : View} {uri next : Uri} {entry : Entry} {position : Nat}
    (found : view uri = some entry) (taken : entry.dependencies[position]? = some next)
    (route : List Nat) : view.arrival? uri (position :: route) = view.arrival? next route := by
  cases onward : view.trail? next route with
  | none => simp [arrival?, trail?, found, taken, onward]
  | some rest =>
    obtain ⟨first, later, rfl⟩ := List.exists_cons_of_ne_nil (trail?_ne_nil onward)
    simp [arrival?, trail?, found, taken, onward, List.getLast?_cons_cons]

def Arrives (view : View) (allowed : Uri → Prop) (uri place : Uri) : Prop :=
  ∃ route, view.SimpleWithin allowed uri route ∧ view.arrival? uri route = some place

theorem Arrives.here {view : View} {allowed : Uri → Prop} {uri : Uri} {entry : Entry}
    (found : view uri = some entry) (within : allowed uri) : view.Arrives allowed uri uri :=
  ⟨[], (view.simpleWithin_nil_iff allowed uri).mpr ⟨within, entry, found⟩, arrival?_nil found⟩

theorem Arrives.step {view : View} {allowed : Uri → Prop} {uri next place : Uri} {entry : Entry}
    (found : view uri = some entry) (within : allowed uri) (taken : next ∈ entry.dependencies)
    (onward : view.Arrives (fun other => allowed other ∧ other ≠ uri) next place) :
    view.Arrives allowed uri place := by
  obtain ⟨position, taken⟩ := List.mem_iff_getElem?.mp taken
  obtain ⟨route, simple, ends⟩ := onward
  refine ⟨position :: route, ?_, ?_⟩
  · exact (view.simpleWithin_cons_iff allowed uri position route).mpr
      ⟨within, entry, next, found, taken, simple⟩
  · rw [arrival?_cons found taken, ends]

theorem arrives_iff (view : View) (allowed : Uri → Prop) (uri place : Uri) :
    view.Arrives allowed uri place ↔
      allowed uri ∧ ∃ entry, view uri = some entry ∧
        (place = uri ∨ ∃ next ∈ entry.dependencies,
          view.Arrives (fun other => allowed other ∧ other ≠ uri) next place) := by
  constructor
  · rintro ⟨route, simple, ends⟩
    cases route with
    | nil =>
      obtain ⟨within, entry, found⟩ := (view.simpleWithin_nil_iff allowed uri).mp simple
      rw [arrival?_nil found] at ends
      exact ⟨within, entry, found, .inl (Option.some.inj ends).symm⟩
    | cons position route =>
      obtain ⟨within, entry, next, found, taken, onward⟩ :=
        (view.simpleWithin_cons_iff allowed uri position route).mp simple
      rw [arrival?_cons found taken] at ends
      exact ⟨within, entry, found, .inr ⟨next, List.mem_of_getElem? taken, route, onward, ends⟩⟩
  · rintro ⟨within, entry, found, rfl | ⟨next, taken, onward⟩⟩
    · exact .here found within
    · exact .step found within taken onward

theorem not_arrives_of_barred {view : View} {allowed : Uri → Prop} {uri : Uri} (place : Uri)
    (barred : ¬ allowed uri ∨ view uri = none) : ¬ view.Arrives allowed uri place := by
  intro arrives
  obtain ⟨within, entry, found, _⟩ := (view.arrives_iff allowed uri place).mp arrives
  rcases barred with outside | nothing
  · exact outside within
  · exact absurd (nothing.symm.trans found) (by simp)

theorem Arrives.mono {view : View} {allowed wider : Uri → Prop} {uri place : Uri}
    (arrives : view.Arrives allowed uri place)
    (widens : ∀ other, allowed other → wider other) : view.Arrives wider uri place := by
  obtain ⟨route, simple, ends⟩ := arrives
  exact ⟨route, simple.mono widens, ends⟩

theorem arrives_of_mem_trail {view : View} {allowed : Uri → Prop} {uri place : Uri}
    {route : List Nat} {trail : List Uri} (followed : view.trail? uri route = some trail)
    (distinct : trail.Nodup) (within : ∀ other ∈ trail, allowed other) (member : place ∈ trail) :
    view.Arrives allowed uri place := by
  induction route generalizing uri trail allowed with
  | nil =>
    obtain ⟨⟨entry, found⟩, rfl⟩ := (view.trail?_nil_iff uri trail).mp followed
    obtain rfl := List.mem_singleton.mp member
    exact .here found (within place (by simp))
  | cons position route ih =>
    obtain ⟨entry, next, rest, found, taken, onward, rfl⟩ :=
      (view.trail?_cons_iff uri position route trail).mp followed
    obtain ⟨fresh, distinct⟩ := List.nodup_cons.mp distinct
    have here : allowed uri := within uri (by simp)
    rcases List.mem_cons.mp member with rfl | member
    · exact .here found here
    · refine .step found here (List.mem_of_getElem? taken) (ih onward distinct ?_ member)
      intro other later
      exact ⟨within other (List.mem_cons_of_mem _ later), fun same => fresh (same ▸ later)⟩

theorem arrives_from_mem_trail {view : View} {allowed : Uri → Prop} {start uri place : Uri}
    {route : List Nat} {trail : List Uri} (followed : view.trail? uri route = some trail)
    (distinct : trail.Nodup) (within : ∀ other ∈ trail, allowed other)
    (ends : view.arrival? uri route = some place) (member : start ∈ trail) :
    view.Arrives allowed start place := by
  induction route generalizing uri trail with
  | nil =>
    have whole := followed
    obtain ⟨-, rfl⟩ := (view.trail?_nil_iff uri trail).mp followed
    obtain rfl := List.mem_singleton.mp member
    exact ⟨[], ⟨_, whole, distinct, within⟩, ends⟩
  | cons position route ih =>
    have whole := followed
    obtain ⟨entry, next, rest, found, taken, onward, rfl⟩ :=
      (view.trail?_cons_iff uri position route trail).mp followed
    rcases List.mem_cons.mp member with rfl | member
    · exact ⟨position :: route, ⟨_, whole, distinct, within⟩, ends⟩
    · rw [arrival?_cons found taken] at ends
      exact ih onward (List.nodup_cons.mp distinct).2
        (fun other later => within other (List.mem_cons_of_mem _ later)) ends member

theorem reaches_of_mem_trail {view : View} {uri place : Uri} {route : List Nat}
    {trail : List Uri} (followed : view.trail? uri route = some trail) (member : place ∈ trail) :
    view.Reaches uri place := by
  induction route generalizing uri trail with
  | nil =>
    obtain ⟨_, rfl⟩ := (view.trail?_nil_iff uri trail).mp followed
    obtain rfl := List.mem_singleton.mp member
    exact .refl
  | cons position route ih =>
    obtain ⟨entry, next, rest, found, taken, onward, rfl⟩ :=
      (view.trail?_cons_iff uri position route trail).mp followed
    rcases List.mem_cons.mp member with rfl | member
    · exact .refl
    · exact .head ⟨entry, found, List.mem_of_getElem? taken⟩ (ih onward member)

theorem arrival?_eq_some {view : View} {uri place : Uri} {route : List Nat}
    (ends : view.arrival? uri route = some place) :
    ∃ trail, view.trail? uri route = some trail ∧ place ∈ trail := by
  obtain ⟨trail, followed, last⟩ := Option.bind_eq_some_iff.mp ends
  exact ⟨trail, followed, List.mem_of_getLast? last⟩

theorem reaches_of_arrival? {view : View} {uri place : Uri} {route : List Nat}
    (ends : view.arrival? uri route = some place) : view.Reaches uri place := by
  obtain ⟨trail, followed, member⟩ := arrival?_eq_some ends
  exact reaches_of_mem_trail followed member

theorem Reaches.arrives {view : View} {uri place : Uri} (reaches : view.Reaches uri place)
    (holds : (view place).isSome) : view.Arrives (fun _ => True) uri place := by
  -- Every walk can be cut down to a simple route: where it comes back to its first document, only what follows is
  -- kept.
  induction reaches using Relation.ReflTransGen.head_induction_on with
  | refl =>
    obtain ⟨entry, found⟩ := Option.isSome_iff_exists.mp holds
    exact .here found trivial
  | @head source next step _ ih =>
    obtain ⟨entry, found, taken⟩ := step
    obtain ⟨route, ⟨trail, followed, distinct, within⟩, ends⟩ := ih
    by_cases member : source ∈ trail
    · exact arrives_from_mem_trail followed distinct within ends member
    · refine .step found trivial taken ⟨route, ⟨trail, followed, distinct, ?_⟩, ends⟩
      intro other later
      exact ⟨trivial, fun same => member (same ▸ later)⟩

theorem PreorderListing.unique {view : View} {uri : Uri} {routes others : List (List Nat)}
    (first : view.PreorderListing uri routes) (second : view.PreorderListing uri others) : others = routes := by
  have distinct {routes : List (List Nat)} (ordered : routes.Pairwise (· < ·)) : routes.Nodup := by
    refine List.Pairwise.imp ?_ ordered
    intro route other less same
    exact List.lt_irrefl other (same ▸ less)
  have same : others.Perm routes :=
    (List.perm_ext_iff_of_nodup (distinct second.ordered) (distinct first.ordered)).mpr fun route =>
      (second.complete route).trans (first.complete route).symm
  exact same.eq_of_pairwise (fun a b _ _ less greater => absurd greater (List.lt_asymm less))
    second.ordered first.ordered

theorem SimpleWithin.start {view : View} {allowed : Uri → Prop} {uri : Uri} {route : List Nat}
    (simple : view.SimpleWithin allowed uri route) : allowed uri ∧ ∃ entry, view uri = some entry := by
  cases route with
  | nil => exact (view.simpleWithin_nil_iff allowed uri).mp simple
  | cons position route =>
    obtain ⟨within, entry, _, found, _⟩ := (view.simpleWithin_cons_iff allowed uri position route).mp simple
    exact ⟨within, entry, found⟩

structure ListsWithin (view : View) (allowed : Uri → Prop) (uri : Uri) (routes : List (List Nat)) :
    Prop where
  ordered : routes.Pairwise (· < ·)
  complete : ∀ route, route ∈ routes ↔ view.SimpleWithin allowed uri route

theorem ListsWithin.congr {view : View} {allowed others : Uri → Prop} {uri : Uri} {routes : List (List Nat)}
    (listed : view.ListsWithin allowed uri routes) (same : ∀ place, allowed place ↔ others place) :
    view.ListsWithin others uri routes := by
  obtain rfl : allowed = others := funext fun place => propext (same place)
  exact listed

theorem ListsWithin.preorderListing {view : View} {uri : Uri} {routes : List (List Nat)}
    (listed : view.ListsWithin (fun _ => True) uri routes) : view.PreorderListing uri routes where
  ordered := listed.ordered
  complete route := (listed.complete route).trans (view.simpleWithin_true_iff uri route)

theorem listsWithin_nil {view : View} {allowed : Uri → Prop} {uri : Uri}
    (barred : ¬ allowed uri ∨ view uri = none) : view.ListsWithin allowed uri [] := by
  refine ⟨.nil, fun route => ⟨fun member => absurd member List.not_mem_nil, fun simple => ?_⟩⟩
  obtain ⟨within, entry, found⟩ := simple.start
  rcases barred with outside | nothing
  · exact absurd within outside
  · exact absurd (nothing.symm.trans found) (by simp)

def branches (entry : Entry) (below : Uri → List (List Nat)) : List (List Nat) :=
  [] :: entry.dependencies.zipIdx.flatMap fun (next, position) => (below next).map (position :: ·)

theorem cons_mem_branches_iff (entry : Entry) (below : Uri → List (List Nat)) (position : Nat)
    (route : List Nat) :
    position :: route ∈ branches entry below ↔
      ∃ next, entry.dependencies[position]? = some next ∧ route ∈ below next := by
  simp only [branches, List.mem_cons, List.mem_flatMap, List.mem_map, reduceCtorEq, false_or,
    List.cons.injEq, Prod.exists]
  constructor
  · rintro ⟨next, _, taken, _, onward, rfl, rfl⟩
    exact ⟨next, List.mem_zipIdx_iff_getElem?.mp taken, onward⟩
  · rintro ⟨next, taken, onward⟩
    exact ⟨next, position, List.mem_zipIdx_iff_getElem?.mpr taken, route, onward, rfl, rfl⟩

theorem branches_ordered {entry : Entry} {below : Uri → List (List Nat)}
    (ordered : ∀ next ∈ entry.dependencies, (below next).Pairwise (· < ·)) :
    (branches entry below).Pairwise (· < ·) := by
  refine List.pairwise_cons.mpr ⟨?_, List.pairwise_flatMap.mpr ⟨?_, ?_⟩⟩
  · intro route member
    simp only [List.mem_flatMap, List.mem_map] at member
    obtain ⟨_, _, onward, _, rfl⟩ := member
    exact List.nil_lt_cons _ _
  · rintro ⟨next, position⟩ taken
    have member : next ∈ entry.dependencies :=
      List.mem_of_getElem? (List.mem_zipIdx_iff_getElem?.mp taken)
    refine List.pairwise_map.mpr ((ordered next member).imp fun less => ?_)
    exact List.cons_lt_cons_iff.mpr (.inr ⟨rfl, less⟩)
  · -- Different dependencies part at once, and their positions decide.
    have positions : (entry.dependencies.zipIdx.map Prod.snd).Pairwise (· < ·) := by
      rw [List.zipIdx_map_snd]
      exact List.pairwise_lt_range'
    refine (List.pairwise_map.mp positions).imp ?_
    rintro ⟨next, position⟩ ⟨other, later⟩ before route member route' member'
    obtain ⟨onward, _, rfl⟩ := List.mem_map.mp member
    obtain ⟨onward', _, rfl⟩ := List.mem_map.mp member'
    exact List.cons_lt_cons_iff.mpr (.inl before)

theorem listsWithin_branches {view : View} {allowed : Uri → Prop} {uri : Uri} {entry : Entry}
    {below : Uri → List (List Nat)} (within : allowed uri) (found : view uri = some entry)
    (listed : ∀ next ∈ entry.dependencies,
      view.ListsWithin (fun place => allowed place ∧ place ≠ uri) next (below next)) :
    view.ListsWithin allowed uri (branches entry below) := by
  refine ⟨branches_ordered fun next taken => (listed next taken).ordered, fun route => ?_⟩
  cases route with
  | nil =>
    rw [simpleWithin_nil_iff]
    simp [branches, within, found]
  | cons position route =>
    rw [cons_mem_branches_iff, simpleWithin_cons_iff]
    constructor
    · rintro ⟨next, taken, onward⟩
      exact ⟨within, entry, next, found, taken,
        ((listed next (List.mem_of_getElem? taken)).complete route).mp onward⟩
    · rintro ⟨_, held, next, again, taken, onward⟩
      obtain rfl := Option.some.inj (found.symm.trans again)
      exact ⟨next, taken, ((listed next (List.mem_of_getElem? taken)).complete route).mpr onward⟩

end View

end AsmIndex
