import Mathlib.Data.List.Lex
import Taas.Arrangements
import Taas.TextOps

/-!
The routes of a controller. They are collected along the method resolution order of its class and
registered with the more specific paths first, since the router takes the first one that matches a
request. A path is looked at segment by segment.
-/
namespace Taas.Routing

open Arrangements TextOps

inductive HttpMethod
  | get
  | post
  | put
  | delete
  | patch
  | options
  | head
  deriving DecidableEq

structure Route (H : Type) where
  path : String
  methods : List HttpMethod
  handler : H
  deriving DecidableEq

def Route.withHandler {H K : Type} (r : Route H) (handler : K) : Route K :=
  { path := r.path, methods := r.methods, handler := handler }

/-- An attribute of a class, with the route that a decorator has attached to it. -/
structure Attribute (F : Type) where
  func : F
  route : Option (Route F) := none

/-- What `getattr(self, name)` gives. -/
structure BoundMethod (F : Type) where
  name : String
  func : F
  deriving DecidableEq

/-- A controller with the `__dict__` of the classes in its method resolution order. -/
structure Controller (F : Type) where
  apiPrefix : String := ""
  mro : List (List (String × Attribute F))

variable {F : Type}

/-- `getattr` finds the name in the first class that has it. -/
def Controller.getattr (c : Controller F) (name : String) (attr : Attribute F) : BoundMethod F :=
  { name := name, func := ((c.mro.flatten.lookup name).getD attr).func }

/-- The body of the inner loop of `_collect`. -/
def Controller.visit (c : Controller F) (s : List (Route (BoundMethod F)) × List String)
    (item : String × Attribute F) : List (Route (BoundMethod F)) × List String :=
  if item.1 ∈ s.2 then s
  else
    match item.2.route with
    | none => s
    | some route =>
      (s.1 ++ [route.withHandler (c.getattr item.1 item.2)], s.2 ++ [item.1])

/-- `_collect`, which goes through the items of one class after the other. -/
def Controller.getRoutes (c : Controller F) : List (Route (BoundMethod F)) :=
  (c.mro.flatten.foldl c.visit ([], [])).1

/-- A segment in braces is a parameter. -/
def isParameter (seg : List Char) : Bool := ['{'].isPrefixOf seg && ['}'].isSuffixOf seg

def routeSpecificityKey (path : String) : List ℕ :=
  (split (· == '/') (strip (· == '/') path.toList)).map fun seg => if isParameter seg then 1 else 0

/-- The routes in the order in which `build_router_for_controller` adds them. -/
def Controller.registered (c : Controller F) : List (Route (BoundMethod F)) :=
  c.getRoutes.mergeSort fun r r' => routeSpecificityKey r.path ≤ routeSpecificityKey r'.path

/-- The path under which a route is registered. -/
def Controller.fullPath (c : Controller F) (path : String) : String :=
  String.ofList (c.apiPrefix.toList.rdropWhile (· == '/')) ++ path

def Controller.serves (pathMatches : String → String → Bool) (c : Controller F)
    (method : HttpMethod) (path : String) (r : Route (BoundMethod F)) : Bool :=
  pathMatches (c.fullPath r.path) path && r.methods.contains method

/-- The router takes the routes in the order of their registration. `pathMatches` is its match of a
request with the path of a route. -/
def Controller.dispatch (pathMatches : String → String → Bool) (c : Controller F)
    (method : HttpMethod) (path : String) : Option (Route (BoundMethod F)) :=
  c.registered.find? (c.serves pathMatches method path)

variable {c : Controller F} {pathMatches : String → String → Bool} {method : HttpMethod}
  {path : String} {r : Route (BoundMethod F)} {before after : List (Route (BoundMethod F))}

/-- Of the routes that serve a request, the one whose key comes first is taken, and of several with
this key the one that was collected first. -/
theorem dispatch_eq_some_iff :
    c.dispatch pathMatches method path = some r ↔
      ∃ before after, c.getRoutes = before ++ r :: after ∧
        c.serves pathMatches method path r = true ∧
        (∀ r' ∈ before, c.serves pathMatches method path r' = true →
          routeSpecificityKey r.path < routeSpecificityKey r'.path) ∧
        ∀ r' ∈ after, c.serves pathMatches method path r' = true →
          routeSpecificityKey r.path ≤ routeSpecificityKey r'.path :=
  find?_mergeSort (fun r : Route (BoundMethod F) => routeSpecificityKey r.path) _ _ r

def routed (items : List (String × Attribute F)) : List (String × Attribute F) :=
  items.filter fun item => item.2.route.isSome

variable {done : List (String × Attribute F)} {name : String} {attr : Attribute F}
  {s : List (Route (BoundMethod F)) × List String}

theorem route_of_lookup (h : (routed done).lookup name = some attr) :
    ∃ route, attr.route = some route := by
  obtain ⟨before, after, heq, -⟩ := List.lookup_eq_some_iff.mp h
  have hmem : (name, attr) ∈ routed done := by
    rw [heq]
    simp
  exact Option.isSome_iff_exists.mp (List.mem_filter.mp hmem).2

theorem lookup_routed_concat (done : List (String × Attribute F)) (item : String × Attribute F)
    (name : String) : (routed (done ++ [item])).lookup name =
      ((routed done).lookup name).or
        (if item.2.route.isSome && name == item.1 then some item.2 else none) := by
  obtain ⟨name', attr⟩ := item
  rw [routed, List.filter_append, List.lookup_append]
  cases hroute : attr.route with
  | none => simp [routed, hroute]
  | some route =>
    by_cases hname : name = name'
    · simp [routed, hroute, hname]
    · have hbeq : (name == name') = false := beq_false_of_ne hname
      simp [routed, hroute, List.lookup_cons, hbeq]

/-- What is known of the routes once the items `done` have been visited. -/
structure Collected (c : Controller F) (done : List (String × Attribute F))
    (s : List (Route (BoundMethod F)) × List String) : Prop where
  seen : s.2 = s.1.map fun r => r.handler.name
  nodup : s.2.Nodup
  mem : ∀ r, r ∈ s.1 ↔ ∃ attr route, (routed done).lookup r.handler.name = some attr ∧
    attr.route = some route ∧ r = route.withHandler (c.getattr r.handler.name attr)

theorem Collected.mem_seen (h : Collected c done s) :
    name ∈ s.2 ↔ ((routed done).lookup name).isSome = true := by
  rw [h.seen, List.mem_map]
  constructor
  · rintro ⟨r, hr, rfl⟩
    obtain ⟨attr, route, hlookup, -⟩ := (h.mem r).mp hr
    rw [hlookup]
    rfl
  · intro hsome
    obtain ⟨attr, hattr⟩ := Option.isSome_iff_exists.mp hsome
    obtain ⟨route, hroute⟩ := route_of_lookup hattr
    exact ⟨route.withHandler (c.getattr name attr), (h.mem _).mpr ⟨attr, route, hattr, hroute, rfl⟩,
      rfl⟩

theorem Collected.visit (h : Collected c done s) (item : String × Attribute F) :
    Collected c (done ++ [item]) (c.visit s item) := by
  have hsame : item.2.route = none ∨ item.1 ∈ s.2 →
      ∀ n, (routed (done ++ [item])).lookup n = (routed done).lookup n := by
    intro hold n
    rw [lookup_routed_concat]
    rcases hold with hnone | hin
    · simp [hnone]
    · by_cases hn : n = item.1
      · obtain ⟨attr, hattr⟩ := Option.isSome_iff_exists.mp (h.mem_seen.mp hin)
        simp [hn, hattr]
      · simp [hn]
  unfold Controller.visit
  split
  · rename_i hin
    exact ⟨h.seen, h.nodup, fun r => by rw [hsame (.inr hin), h.mem r]⟩
  rename_i hnew
  split
  · rename_i hnone
    exact ⟨h.seen, h.nodup, fun r => by rw [hsame (.inl hnone), h.mem r]⟩
  rename_i route hroute
  have hfirst : (routed done).lookup item.1 = none := by
    rw [← Option.not_isSome_iff_eq_none, ← h.mem_seen]
    exact hnew
  refine ⟨by simp [h.seen, Route.withHandler, Controller.getattr],
    by simpa using h.nodup.concat hnew, fun r => ?_⟩
  rw [List.mem_append, List.mem_singleton, h.mem r, lookup_routed_concat]
  by_cases hr : r.handler.name = item.1
  · simp [hr, hfirst, hroute]
  · have hne : r ≠ route.withHandler (c.getattr item.1 item.2) := by
      rintro rfl
      exact hr rfl
    simp [hr, hne]

theorem collected (c : Controller F) :
    Collected c c.mro.flatten (c.mro.flatten.foldl c.visit ([], [])) := by
  have hall : ∀ (rest done : List (String × Attribute F)) s, Collected c done s →
      Collected c (done ++ rest) (rest.foldl c.visit s) := by
    intro rest
    induction rest with
    | nil =>
      intro done s hs
      simpa using hs
    | cons item rest ih =>
      intro done s hs
      simpa using ih (done ++ [item]) _ (hs.visit item)
  exact hall _ [] _ ⟨rfl, List.nodup_nil, by simp [routed]⟩

theorem nodup_getRoutes (c : Controller F) : c.getRoutes.Nodup := by
  have h := collected c
  have hnodup := h.nodup
  rw [h.seen] at hnodup
  exact hnodup.of_map _

def segments (path : String) : List (List Char) := path.toList.splitOn '/'

/-- How a segment of a request meets one of the path of a route. -/
def SegmentMatches (template seg : List Char) : Prop :=
  if isParameter template then seg ≠ [] else seg = template

/-- A name of a path parameter. -/
def isIdentifier : List Char → Bool
  | [] => false
  | c :: cs => (c.isAlpha || c == '_') && cs.all fun c => c.isAlphanum || c == '_'

/-- A segment that is one parameter of the default convertor, or that has no braces. -/
def PlainSegment (seg : List Char) : Prop :=
  if isParameter seg then isIdentifier (seg.drop 1).dropLast else '{' ∉ seg ∧ '}' ∉ seg

/-- What the router documents about its matches: a parameter stands for a text without slashes. -/
def Documented (pathMatches : String → String → Bool) : Prop :=
  ∀ template path, (∀ seg ∈ segments template, PlainSegment seg) →
    (pathMatches template path = true ↔
      List.Forall₂ SegmentMatches (segments template) (segments path))

/-- The path of a route is empty or begins with a slash. -/
def Routed (path : String) : Prop := (segments path).head? = some []

theorem routeSpecificityKey_eq (path : String) :
    routeSpecificityKey path =
      ((segments path).filter (!·.isEmpty)).map fun seg => if isParameter seg then 1 else 0 := by
  rw [routeSpecificityKey, split_strip]
  rfl

theorem segments_fullPath (c : Controller F) {path : String} (h : Routed path) :
    segments (c.fullPath path) = segments (c.fullPath "") ++ (segments path).tail := by
  unfold Routed segments at h
  simp only [segments, Controller.fullPath, String.toList_append, String.toList_ofList]
  cases hpath : path.toList with
  | nil => simp
  | cons x xs =>
    rw [hpath, List.splitOn_cons_eq_if_modifyHead] at h
    split at h
    · rename_i hx
      obtain rfl : x = '/' := by simpa using hx
      simp [List.splitOn_append_cons_self, List.splitOn_cons_eq_if_modifyHead]
    · cases hxs : xs.splitOn '/' with
      | nil => exact absurd hxs (List.splitOn_ne_nil _ _)
      | cons first rest => simp [hxs] at h

/-- The segments are the same, or both are parameters. -/
def SameSegment (seg seg' : List Char) : Prop :=
  seg = seg' ∨ isParameter seg = true ∧ isParameter seg' = true

/-- The paths differ at most in the names of their parameters. -/
def SameShape (r r' : Route (BoundMethod F)) : Prop :=
  List.Forall₂ SameSegment (segments r.path) (segments r'.path)

/-- The first segment is the other one, or a parameter that takes the values of the other one. -/
def Covers (seg seg' : List Char) : Prop := seg = seg' ∨ isParameter seg = true ∧ seg' ≠ []

def keyOf (segs : List (List Char)) : List ℕ :=
  (segs.filter (!·.isEmpty)).map fun seg => if isParameter seg then 1 else 0

theorem ne_nil_of_isParameter {seg : List Char} (h : isParameter seg = true) : seg ≠ [] := by
  rintro rfl
  simp [isParameter] at h

theorem keyOf_cons {seg : List Char} (h : seg ≠ []) (segs : List (List Char)) :
    keyOf (seg :: segs) = (if isParameter seg then 1 else 0) :: keyOf segs := by
  simp [keyOf, h]

/-- A path that covers another one comes after it, unless it has the same shape. -/
theorem keyOf_le {segs segs' : List (List Char)} (h : List.Forall₂ Covers segs segs') :
    keyOf segs' ≤ keyOf segs ∧
      (keyOf segs = keyOf segs' → List.Forall₂ SameSegment segs segs') := by
  induction h with
  | nil => exact ⟨le_rfl, fun _ => .nil⟩
  | @cons seg seg' segs segs' hcovers _ ih =>
    rcases hcovers with rfl | ⟨hparameter, hne'⟩
    · by_cases hne : seg = []
      · subst hne
        exact ⟨ih.1, fun heq => .cons (.inl rfl) (ih.2 heq)⟩
      · rw [keyOf_cons hne, keyOf_cons hne]
        refine ⟨List.cons_le_cons _ ih.1, fun heq => ?_⟩
        exact .cons (.inl rfl) (ih.2 (List.cons.inj heq).2)
    · rw [keyOf_cons (ne_nil_of_isParameter hparameter), keyOf_cons hne', if_pos hparameter]
      by_cases hparameter' : isParameter seg' = true
      · rw [if_pos hparameter']
        refine ⟨List.cons_le_cons _ ih.1, fun heq => ?_⟩
        exact .cons (.inr ⟨hparameter, hparameter'⟩) (ih.2 (List.cons.inj heq).2)
      · rw [if_neg hparameter']
        refine ⟨le_of_lt (List.Lex.rel one_pos), fun heq => ?_⟩
        exact absurd (List.cons.inj heq).1 Nat.one_ne_zero

theorem exists_fresh (segs : List (List Char)) : ∃ v : List Char, v ≠ [] ∧ '/' ∉ v ∧ v ∉ segs := by
  refine ⟨List.replicate (segs.flatten.length + 1) 'x', by simp, ?_, fun hmem => ?_⟩
  · intro h
    simpa using List.eq_of_mem_replicate h
  · have hle := (List.sublist_flatten_of_mem hmem).length_le
    rw [List.length_replicate] at hle
    omega

/-- The value that a request has for a segment, with `v` for the parameters. -/
def fill (v seg : List Char) : List Char := if isParameter seg then v else seg

theorem matches_fill {v : List Char} (hv : v ≠ []) (segs : List (List Char)) :
    List.Forall₂ SegmentMatches segs (segs.map (fill v)) := by
  rw [List.forall₂_map_right_iff]
  refine List.forall₂_same.mpr fun seg _ => ?_
  unfold SegmentMatches fill
  split
  · exact hv
  · rfl

/-- A path that matches a request for another path with a value of its own covers that path. -/
theorem covers_of_matches {v : List Char} {segs segs' : List (List Char)} (hfresh : v ∉ segs)
    (h : List.Forall₂ SegmentMatches segs (segs'.map (fill v))) :
    List.Forall₂ Covers segs segs' := by
  rw [List.forall₂_map_right_iff] at h
  induction h with
  | nil => exact .nil
  | @cons seg seg' segs segs' hmatches _ ih =>
    refine .cons ?_ (ih fun hmem => hfresh (List.mem_cons_of_mem _ hmem))
    unfold SegmentMatches fill at hmatches
    by_cases hparameter : isParameter seg = true
    · rw [if_pos hparameter] at hmatches
      refine .inr ⟨hparameter, ?_⟩
      split at hmatches
      · rename_i hparameter'
        exact ne_nil_of_isParameter hparameter'
      · exact hmatches
    · rw [if_neg hparameter] at hmatches
      split at hmatches
      · exact absurd (hmatches ▸ List.mem_cons_self) hfresh
      · exact .inl hmatches.symm

theorem matches_of_same {segs segs' values : List (List Char)}
    (hsame : List.Forall₂ SameSegment segs segs')
    (h : List.Forall₂ SegmentMatches segs' values) : List.Forall₂ SegmentMatches segs values := by
  induction hsame generalizing values with
  | nil => exact h
  | @cons seg seg' segs segs' hseg _ ih =>
    cases h with
    | cons hmatches hrest =>
      refine .cons ?_ (ih hrest)
      rcases hseg with rfl | ⟨hparameter, hparameter'⟩
      · exact hmatches
      · rw [SegmentMatches, if_pos hparameter'] at hmatches
        rw [SegmentMatches, if_pos hparameter]
        exact hmatches

theorem segments_eq_cons {path : String} (h : Routed path) :
    segments path = [] :: (segments path).tail := by
  unfold Routed at h
  cases hsegments : segments path with
  | nil => simp [hsegments] at h
  | cons first rest =>
    obtain rfl : first = [] := by simpa [hsegments] using h
    rfl

theorem key_eq_keyOf {path : String} (h : Routed path) :
    routeSpecificityKey path = keyOf (segments path).tail := by
  rw [routeSpecificityKey_eq, segments_eq_cons h]
  rfl

/-- A request for the path of a route, with `v` for the parameters. -/
def requestFor (v : List Char) (path : String) : String :=
  String.ofList (['/'].intercalate ((segments path).map (fill v)))

theorem segments_requestFor {v : List Char} (hv : '/' ∉ v) (path : String) :
    segments (requestFor v path) = (segments path).map (fill v) := by
  unfold requestFor
  rw [segments, String.toList_ofList]
  refine List.splitOn_intercalate '/' ?_ ?_
  · intro value hvalue
    obtain ⟨seg, hseg, rfl⟩ := List.mem_map.mp hvalue
    unfold fill
    split
    · exact hv
    · exact not_mem_of_mem_splitOn hseg
  · simp [segments]

/-- What the routes of a controller are made of. -/
def Controller.WellFormed (c : Controller F) : Prop :=
  ∀ r ∈ c.getRoutes, Routed r.path ∧ ∀ seg ∈ segments (c.fullPath r.path), PlainSegment seg

theorem Controller.WellFormed.serves_iff (hdocumented : Documented pathMatches) (hc : c.WellFormed)
    (hr : r ∈ c.getRoutes) :
    c.serves pathMatches method path r = true ↔
      List.Forall₂ SegmentMatches (segments (c.fullPath "") ++ (segments r.path).tail)
        (segments path) ∧ method ∈ r.methods := by
  obtain ⟨hrouted, hplain⟩ := hc r hr
  simp [Controller.serves, hdocumented _ path hplain, segments_fullPath c hrouted]

theorem Controller.WellFormed.key (hc : c.WellFormed) (hr : r ∈ c.getRoutes) :
    routeSpecificityKey r.path = keyOf (segments r.path).tail :=
  key_eq_keyOf (hc r hr).1

/-- At the first segment in which the paths differ, the first one has a literal and the other one a
parameter. -/
inductive MoreSpecific : List (List Char) → List (List Char) → Prop
  | here {seg seg' : List Char} {segs segs' : List (List Char)} :
      isParameter seg = false → isParameter seg' = true → MoreSpecific (seg :: segs) (seg' :: segs')
  | later {seg seg' : List Char} {segs segs' : List (List Char)} :
      SameSegment seg seg' → MoreSpecific segs segs' → MoreSpecific (seg :: segs) (seg' :: segs')

theorem keyOf_lt_cons {seg seg' : List Char} {segs segs' : List (List Char)}
    (hkind : isParameter seg = isParameter seg') (hempty : seg = [] ↔ seg' = []) :
    (keyOf (seg :: segs) = keyOf (seg' :: segs') ↔ keyOf segs = keyOf segs') ∧
      (keyOf (seg :: segs) < keyOf (seg' :: segs') ↔ keyOf segs < keyOf segs') := by
  by_cases hne : seg = []
  · obtain rfl := hne
    obtain rfl := hempty.mp rfl
    exact ⟨Iff.rfl, Iff.rfl⟩
  · rw [keyOf_cons hne, keyOf_cons (mt hempty.mpr hne), hkind]
    refine ⟨by simp, ⟨fun hlt => ?_, fun hlt => List.Lex.cons hlt⟩⟩
    cases hlt with
    | rel h => exact absurd h (lt_irrefl _)
    | cons h => exact h

/-- Two paths that match the same request have the same shape where their keys are the same, and
otherwise the one whose key comes first is more specific. -/
theorem kinds_of_matches {segs segs' values : List (List Char)}
    (h : List.Forall₂ SegmentMatches segs values) (h' : List.Forall₂ SegmentMatches segs' values) :
    (keyOf segs = keyOf segs' → List.Forall₂ SameSegment segs segs') ∧
      (keyOf segs < keyOf segs' → MoreSpecific segs segs') := by
  induction h generalizing segs' with
  | nil =>
    cases h'
    exact ⟨fun _ => .nil, fun hlt => absurd hlt (lt_irrefl _)⟩
  | @cons seg value segs values hseg _ ih =>
    cases h' with
    | @cons seg' _ segs' _ hseg' hrest =>
      have hrecurse : SameSegment seg seg' → isParameter seg = isParameter seg' →
          (seg = [] ↔ seg' = []) →
            (keyOf (seg :: segs) = keyOf (seg' :: segs') →
              List.Forall₂ SameSegment (seg :: segs) (seg' :: segs')) ∧
            (keyOf (seg :: segs) < keyOf (seg' :: segs') →
              MoreSpecific (seg :: segs) (seg' :: segs')) := by
        intro hsame hkind hempty
        rw [(keyOf_lt_cons hkind hempty).1, (keyOf_lt_cons hkind hempty).2]
        exact ⟨fun heq => .cons hsame ((ih hrest).1 heq),
          fun hlt => .later hsame ((ih hrest).2 hlt)⟩
      unfold SegmentMatches at hseg hseg'
      cases hkind : isParameter seg <;> cases hkind' : isParameter seg' <;>
        simp only [hkind, hkind', Bool.false_eq_true, if_true, if_false] at hseg hseg'
      case false.false =>
        exact hrecurse (.inl (hseg.symm.trans hseg')) (hkind.trans hkind'.symm)
          (by rw [← hseg, ← hseg'])
      case true.true =>
        exact hrecurse (.inr ⟨hkind, hkind'⟩) (hkind.trans hkind'.symm)
          (iff_of_false (ne_nil_of_isParameter hkind) (ne_nil_of_isParameter hkind'))
      case false.true =>
        rw [keyOf_cons (hseg ▸ hseg'), keyOf_cons (ne_nil_of_isParameter hkind')]
        simp only [hkind, hkind', Bool.false_eq_true, if_true, if_false]
        exact ⟨fun heq => absurd (List.cons.inj heq).1 Nat.zero_ne_one, fun _ => .here hkind hkind'⟩
      case true.false =>
        rw [keyOf_cons (ne_nil_of_isParameter hkind), keyOf_cons (hseg' ▸ hseg)]
        simp only [hkind, hkind', Bool.false_eq_true, if_true, if_false]
        refine ⟨fun heq => absurd (List.cons.inj heq).1 Nat.one_ne_zero, fun hlt => ?_⟩
        cases hlt with
        | rel h => exact absurd h (Nat.not_lt_zero _)

/-- A controller answers a request with the most specific of the routes that serve it: every other
one has a parameter where, for the first time, the paths differ, or has the same shape and was
collected later. -/
theorem dispatch_mostSpecific (hdocumented : Documented pathMatches) (hc : c.WellFormed)
    (hpath : c.dispatch pathMatches method path = some r) {r' : Route (BoundMethod F)}
    (hr' : r' ∈ c.getRoutes) (hserved' : c.serves pathMatches method path r' = true) :
    r' = r ∨ MoreSpecific (segments r.path) (segments r'.path) ∨
      SameShape r r' ∧ ∃ before after, c.getRoutes = before ++ r :: after ∧ r' ∈ after := by
  obtain ⟨before, after, hroutes, hserved, hless, hle⟩ := dispatch_eq_some_iff.mp hpath
  have hr : r ∈ c.getRoutes := by
    rw [hroutes]
    simp
  have hmatches := List.forall₂_drop (segments (c.fullPath "")).length
    ((hc.serves_iff hdocumented hr).mp hserved).1
  have hmatches' := List.forall₂_drop (segments (c.fullPath "")).length
    ((hc.serves_iff hdocumented hr').mp hserved').1
  rw [List.drop_left] at hmatches hmatches'
  obtain ⟨hsame, hmore⟩ := kinds_of_matches hmatches hmatches'
  have hlt : keyOf (segments r.path).tail < keyOf (segments r'.path).tail →
      MoreSpecific (segments r.path) (segments r'.path) := by
    intro hlt
    rw [segments_eq_cons (hc r hr).1, segments_eq_cons (hc r' hr').1]
    exact .later (.inl rfl) (hmore hlt)
  have hplace := hr'
  rw [hroutes, List.mem_append, List.mem_cons] at hplace
  rcases hplace with hbefore | rfl | hafter
  · have hkey := hless r' hbefore hserved'
    rw [hc.key hr, hc.key hr'] at hkey
    exact .inr (.inl (hlt hkey))
  · exact .inl rfl
  · have hkey := hle r' hafter hserved'
    rw [hc.key hr, hc.key hr'] at hkey
    rcases hkey.lt_or_eq with hkey | hkey
    · exact .inr (.inl (hlt hkey))
    · refine .inr (.inr ⟨?_, before, after, hroutes, hafter⟩)
      unfold SameShape
      rw [segments_eq_cons (hc r hr).1, segments_eq_cons (hc r' hr').1]
      exact .cons (.inl rfl) (hsame hkey)

/-- A match that looks at one segment after the other. -/
def segmentwise (template path : String) : Bool :=
  (segments template).length == (segments path).length &&
    ((segments template).zip (segments path)).all fun x =>
      if isParameter x.1 then !x.2.isEmpty else x.2 == x.1

theorem documented_segmentwise : Documented segmentwise := by
  intro template path _
  rw [segmentwise, Bool.and_eq_true, beq_iff_eq, List.all_eq_true, List.forall₂_iff_zip]
  refine and_congr_right fun _ => ⟨fun h seg value hmem => ?_, fun h x hx => ?_⟩
  · have hmatches := h (seg, value) hmem
    unfold SegmentMatches
    split <;> simp_all
  · have hmatches := h hx
    unfold SegmentMatches at hmatches
    split <;> simp_all

/-- A controller that declares a route with a parameter before one with a literal path. -/
def demo : Controller ℕ where
  apiPrefix := "/demo/"
  mro := [[
    ("get_by_id", { func := 1, route := some ⟨"/{id}", [.get], 1⟩ }),
    ("error_trace", { func := 2, route := some ⟨"/error-trace", [.get], 2⟩ })]]

theorem getRoutes_demo : demo.getRoutes = [⟨"/{id}", [.get], ⟨"get_by_id", 1⟩⟩] ++
    ⟨"/error-trace", [.get], ⟨"error_trace", 2⟩⟩ :: [] := by decide +kernel

theorem wellFormed_demo : demo.WellFormed := by
  unfold Controller.WellFormed Routed PlainSegment
  rw [getRoutes_demo]
  decide +kernel

theorem not_sameSegment_demo : ¬SameSegment "{id}".toList "error-trace".toList := by
  unfold SameSegment
  decide +kernel

theorem dispatch_mostSpecific_demo :
    MoreSpecific (segments "/error-trace") (segments "/{id}") := by
  have hpath : demo.dispatch segmentwise .get "/demo/error-trace" =
      some ⟨"/error-trace", [.get], ⟨"error_trace", 2⟩⟩ :=
    dispatch_eq_some_iff.mpr ⟨_, _, getRoutes_demo, by decide +kernel, by decide +kernel, nofun⟩
  have hmem : ⟨"/{id}", [.get], ⟨"get_by_id", 1⟩⟩ ∈ demo.getRoutes := by decide +kernel
  rcases dispatch_mostSpecific documented_segmentwise wellFormed_demo hpath hmem (by decide +kernel)
    with heq | hmore | ⟨hsame, -⟩
  · exact absurd heq (by decide)
  · exact hmore
  · have hseg : SameSegment "error-trace".toList "{id}".toList :=
      List.forall₂_zip hsame (by decide +kernel)
    unfold SameSegment at hseg
    exact absurd hseg (by decide +kernel)

end Taas.Routing
