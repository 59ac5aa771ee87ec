import NestServer.ClassHierarchy
import NestServer.Memo
import NestServer.RestrictedCheck

/-! # The cache of restriction metadata

    `getRestricted` of `restricted.decorator.ts` keeps what it finds, by the
    class of the object it is asked about.  The metadata of a class is recorded
    in three places: the class itself, its static members, and the members of its
    prototype; a class, its prototype and its instances read different ones and
    share one entry of the cache.

    `getRestricted_transparent_iff` says which calls cannot tell the cache from
    the lookup behind it. -/

open Restricted (RestrictedType)

namespace RestrictedCache

/-- The models of an application, with the `@Restricted` metadata of each. -/
structure Models (Class : Type) extends ClassHierarchy Class where
  restricted       : Class → Option RestrictedType
  staticRestricted : Class → String → Option RestrictedType
  memberRestricted : Class → String → Option RestrictedType

/-- A value of the payload under the key `constructor`; an object or array has an
    identity. -/
inductive OwnConstructor (Ref : Type) where
  | primitive (value : Prim)
  | reference (ref : Ref)
deriving DecidableEq, Repr

/-- What `getRestricted` is asked about.  A plain object is an instance of a class
    without metadata; only a payload has a key `constructor` of its own. -/
inductive Object (Class Ref : Type) where
  | constructor (cls : Class)
  | prototype (cls : Class)
  | instance_ (cls : Class) (own : Option (OwnConstructor Ref))
deriving DecidableEq, Repr

/-- A key of the `WeakMap`. -/
inductive CacheTarget (Class Ref : Type) where
  | cls (cls : Class)
  | ref (ref : Ref)
deriving DecidableEq, Repr

/-- What an object says its constructor is: nothing, a target of the cache, or a
    primitive that no `WeakMap` takes. -/
inductive Constructor (Class Ref : Type) where
  | falsy
  | primitive
  | target (t : CacheTarget Class Ref)
deriving DecidableEq, Repr

inductive TypeError where
  /-- `Invalid value used as weak map key` -/
  | invalidWeakMapKey
deriving DecidableEq, Repr

section Lookup

variable {Class Ref : Type}

/-- `typeof object === 'function' ? object : object.constructor` -/
def Object.cacheTarget : Object Class Ref → Constructor Class Ref
  | .constructor c => .target (.cls c)
  | .prototype c   => .target (.cls c)
  | .instance_ c none => .target (.cls c)
  | .instance_ _ (some (.reference r)) => .target (.ref r)
  | .instance_ _ (some (.primitive p)) => if p.truthy then .primitive else .falsy

/-- The declaration a lookup walks for; class decorators leave nothing on a
    prototype. -/
inductive Declaration (Class : Type) where
  | ofClass (cls : Class)
  | ofStatic (cls : Class) (key : String)
  | ofMember (cls : Class) (key : String)
  | nothing
deriving DecidableEq, Repr

def Object.declaration : Object Class Ref → Option String → Declaration Class
  | .constructor c, none     => .ofClass c
  | .constructor c, some key => .ofStatic c key
  | .prototype _, none       => .nothing
  | .prototype c, some key   => .ofMember c key
  | .instance_ _ _, none     => .nothing
  | .instance_ c _, some key => .ofMember c key

/-- Is it a class itself? -/
def Object.isConstructor : Object Class Ref → Bool
  | .constructor _ => true
  | .prototype _ | .instance_ _ _ => false

/-- The class an object is, or is of. -/
def Object.cls : Object Class Ref → Class
  | .constructor c | .prototype c | .instance_ c _ => c

/-- Whatever is cached for a class is about that class. -/
theorem cls_of_target {o : Object Class Ref} {c : Class}
    (h : o.cacheTarget = .target (.cls c)) : o.cls = c := by
  cases o with
  | constructor d =>
      cases h
      rfl
  | prototype d =>
      cases h
      rfl
  | instance_ d own =>
      rcases own with _ | (p | r)
      · cases h
        rfl
      · rw [Object.cacheTarget] at h
        split at h <;> cases h
      · cases h

theorem declaration_congr {o o' : Object Class Ref} {key : Option String}
    (hside : o.isConstructor = o'.isConstructor) (hcls : o.cls = o'.cls) :
    o.declaration key = o'.declaration key := by
  cases o <;> cases o' <;> cases hcls <;> cases key <;> first | rfl | cases hside

namespace Models

variable (m : Models Class)

/-- The nearest class that declares it. -/
def find : Declaration Class → Option RestrictedType
  | .ofClass c      => m.nearest m.restricted c
  | .ofStatic c key => m.nearest (m.staticRestricted · key) c
  | .ofMember c key => m.nearest (m.memberRestricted · key) c
  | .nothing        => none

/-- `Reflect.getMetadata(restrictedMetaKey, object, propertyKey)` -/
def getMetadata (object : Object Class Ref) (propertyKey : Option String) :
    Option RestrictedType :=
  m.find (object.declaration propertyKey)

end Models

end Lookup

/-- `restrictedMetadataCache` -/
abbrev Cache (Class Ref : Type) :=
  OrderedMap (CacheTarget Class Ref) (OrderedMap String (Option RestrictedType))

variable {Class Ref : Type} [DecidableEq Class] [DecidableEq Ref] (m : Models Class)

/-- `getRestricted(object, propertyKey)`, and the cache after it; `none` is
    `null` or `undefined`, an empty key counts as no key. -/
def getRestricted (object : Option (Object Class Ref)) (propertyKey : Option String)
    (cache : Cache Class Ref) : Except TypeError (Option RestrictedType) × Cache Class Ref :=
  match object with
  | none => (.ok none, cache)
  | some object =>
      let propertyKey := propertyKey.filter JsText.truthy
      match object.cacheTarget with
      | .falsy     => (.ok (m.getMetadata object propertyKey), cache)
      | .primitive => (.error .invalidWeakMapKey, cache)
      | .target cacheTarget =>
          let classCache := (cache.get? cacheTarget).getD .empty
          let cacheKey := propertyKey.getD "__class__"
          match classCache.get? cacheKey with
          | some metadata => (.ok metadata, cache.set cacheTarget classCache)
          | none =>
              let metadata := m.getMetadata object propertyKey
              (.ok metadata, cache.set cacheTarget (classCache.set cacheKey metadata))

/-- The arguments of a call. -/
structure Call (Class Ref : Type) where
  object      : Object Class Ref
  propertyKey : Option String
deriving DecidableEq, Repr

/-- The outcomes of one call after the other. -/
def outcomes : Cache Class Ref → List (Call Class Ref) →
    List (Except TypeError (Option RestrictedType))
  | _, [] => []
  | cache, c :: cs =>
      (getRestricted m (some c.object) c.propertyKey cache).1
        :: outcomes (getRestricted m (some c.object) c.propertyKey cache).2 cs

namespace Call

/-- The declaration a call asks for. -/
def declaration (c : Call Class Ref) : Declaration Class :=
  c.object.declaration (c.propertyKey.filter JsText.truthy)

/-- The entry of the cache a call reads, if it reads one. -/
def slot (c : Call Class Ref) : Option (CacheTarget Class Ref × String) :=
  match c.object.cacheTarget with
  | .target t => some (t, (c.propertyKey.filter JsText.truthy).getD "__class__")
  | .falsy | .primitive => none

end Call

omit [DecidableEq Class] [DecidableEq Ref] in
theorem slot_eq_some_iff {c : Call Class Ref} {t : CacheTarget Class Ref} {key : String} :
    c.slot = some (t, key) ↔ c.object.cacheTarget = .target t
      ∧ (c.propertyKey.filter JsText.truthy).getD "__class__" = key := by
  rw [Call.slot]
  cases c.object.cacheTarget with
  | falsy => exact iff_of_false nofun fun h => nomatch h.1
  | primitive => exact iff_of_false nofun fun h => nomatch h.1
  | target t' => simp

/-- The lookup that a call makes where there is no cache. -/
def uncached (c : Call Class Ref) : Option RestrictedType :=
  m.getMetadata c.object (c.propertyKey.filter JsText.truthy)

/-! ## The cache is a memo table -/

/-- The entries of the cache, by target and key. -/
def Cache.table (cache : Cache Class Ref) :
    Memo.Table (CacheTarget Class Ref × String) (Option RestrictedType) :=
  fun k => (cache.get? k.1).bind fun classCache => classCache.get? k.2

section Table

variable {m} {cache : Cache Class Ref} {t : CacheTarget Class Ref}

variable (cache t) in
theorem table_apply (key : String) :
    cache.table (t, key) = ((cache.get? t).getD .empty).get? key := by
  show (cache.get? t).bind _ = _
  cases cache.get? t with
  | none => rfl
  | some classCache => rfl

/-- Storing the map of a class back changes no entry. -/
theorem table_set_self :
    Cache.table (cache.set t ((cache.get? t).getD .empty)) = cache.table := by
  funext k
  obtain ⟨t', key⟩ := k
  rw [table_apply, table_apply]
  by_cases ht : t' = t
  · rw [ht, OrderedMap.get?_set_self, Option.getD_some]
  · rw [OrderedMap.get?_set_of_ne _ _ ht]

theorem table_set (key : String) (v : Option RestrictedType) :
    Cache.table (cache.set t (((cache.get? t).getD .empty).set key v))
      = Function.update cache.table (t, key) (some v) := by
  funext k
  obtain ⟨t', key'⟩ := k
  by_cases ht : t' = t
  · subst ht
    rw [table_apply, OrderedMap.get?_set_self, Option.getD_some]
    by_cases hk : key' = key
    · rw [hk, OrderedMap.get?_set_self, Function.update_self]
    · have hne : (t', key') ≠ (t', key) := fun h => hk (congrArg Prod.snd h)
      rw [OrderedMap.get?_set_of_ne _ _ hk, Function.update_of_ne hne, table_apply]
  · have hne : (t', key') ≠ (t, key) := fun h => ht (congrArg Prod.fst h)
    rw [table_apply, OrderedMap.get?_set_of_ne _ _ ht, Function.update_of_ne hne, table_apply]

variable {c : Call Class Ref}

/-- A call throws where the object has a truthy primitive as `constructor`. -/
theorem getRestricted_primitive (h : c.object.cacheTarget = .primitive) :
    getRestricted m (some c.object) c.propertyKey cache = (.error .invalidWeakMapKey, cache) := by
  rw [getRestricted]
  dsimp only
  rw [h]

variable (m cache) in
/-- Any other call is a request to the memo table. -/
theorem getRestricted_ask (h : c.object.cacheTarget ≠ .primitive) :
    (getRestricted m (some c.object) c.propertyKey cache).1
        = .ok (Memo.ask Call.slot (uncached m) cache.table c).1
      ∧ (getRestricted m (some c.object) c.propertyKey cache).2.table
        = (Memo.ask Call.slot (uncached m) cache.table c).2 := by
  rw [getRestricted]
  dsimp only
  cases ht : c.object.cacheTarget with
  | primitive => exact absurd ht h
  | falsy =>
      have hslot : c.slot = none := by rw [Call.slot, ht]
      rw [Memo.ask_unslotted hslot]
      exact ⟨rfl, rfl⟩
  | target t =>
      have hslot := slot_eq_some_iff.mpr ⟨ht, rfl⟩
      have hentry := table_apply cache t
        ((c.propertyKey.filter JsText.truthy).getD "__class__")
      cases hkept : ((cache.get? t).getD .empty).get?
          ((c.propertyKey.filter JsText.truthy).getD "__class__") with
      | some metadata =>
          rw [hkept] at hentry
          rw [Memo.ask_kept hslot hentry]
          dsimp only
          rw [hkept]
          exact ⟨rfl, table_set_self⟩
      | none =>
          rw [hkept] at hentry
          rw [Memo.ask_new hslot hentry]
          dsimp only
          rw [hkept]
          exact ⟨rfl, table_set _ _⟩

end Table

/-- Calls that throw nowhere are answered from the memo table. -/
theorem outcomes_eq (cs : List (Call Class Ref)) (cache : Cache Class Ref)
    (h : ∀ c ∈ cs, c.object.cacheTarget ≠ .primitive) :
    outcomes m cache cs = (Memo.answers Call.slot (uncached m) cache.table cs).map .ok := by
  induction cs generalizing cache with
  | nil => rfl
  | cons c cs ih =>
      obtain ⟨hanswer, htable⟩ := getRestricted_ask m cache (h c List.mem_cons_self)
      rw [outcomes, Memo.answers, List.map_cons, hanswer,
        ih _ fun c' hc' => h c' (List.mem_cons_of_mem c hc'), htable]

/-- A call that throws is no lookup. -/
theorem throws_nowhere {cs : List (Call Class Ref)} {cache : Cache Class Ref}
    (h : outcomes m cache cs = cs.map fun c => .ok (uncached m c)) :
    ∀ c ∈ cs, c.object.cacheTarget ≠ .primitive := by
  induction cs generalizing cache with
  | nil => exact fun c hc => absurd hc List.not_mem_nil
  | cons c cs ih =>
      rw [outcomes, List.map_cons, List.cons.injEq] at h
      refine List.forall_mem_cons.mpr ⟨?_, ih h.2⟩
      intro hprimitive
      rw [getRestricted_primitive hprimitive] at h
      cases h.1

/-! ## When the cache is transparent -/

/-- Two calls that read one entry of the cache find the same: a call about a
    class and one about its prototype or its instances, or a call without a key
    and one with the key `__class__`, ask for different declarations. -/
def Agree (a b : Call Class Ref) : Prop :=
  ∀ k, a.slot = some k → b.slot = some k → m.find a.declaration = m.find b.declaration

/-- **The cache is transparent** to a sequence of calls exactly when none of the
    objects has a truthy primitive as its own `constructor` and any two of the
    calls agree. -/
theorem getRestricted_transparent_iff (cs : List (Call Class Ref)) :
    outcomes m .empty cs = cs.map (fun c => .ok (m.getMetadata c.object
        (c.propertyKey.filter JsText.truthy)))
      ↔ (∀ c ∈ cs, c.object.cacheTarget ≠ .primitive) ∧ cs.Pairwise (Agree m) := by
  have hempty : Cache.table (.empty : Cache Class Ref) = fun _ => none := rfl
  constructor
  · intro h
    have hnowhere := throws_nowhere m h
    refine ⟨hnowhere, Memo.answers_empty_iff cs |>.mp ?_⟩
    rw [outcomes_eq m cs .empty hnowhere, hempty] at h
    have hok : cs.map (fun c => (.ok (uncached m c) : Except TypeError (Option RestrictedType)))
        = (cs.map (uncached m)).map .ok := (List.map_map ..).symm
    exact List.map_injective_iff.mpr (fun _ _ => Except.ok.inj) (h.trans hok)
  · rintro ⟨hnowhere, hagree⟩
    have hanswers : Memo.answers Call.slot (uncached m) (fun _ => none) cs = cs.map (uncached m) :=
      (Memo.answers_empty_iff cs).mpr hagree
    rw [outcomes_eq m cs .empty hnowhere, hempty, hanswers, List.map_map]
    rfl

omit [DecidableEq Class] [DecidableEq Ref]

/-- Two calls about classes themselves, or two about prototypes and instances,
    agree where both have a key or neither has, unless what they share is an
    object under `constructor`. -/
theorem agree_of_alike {a b : Call Class Ref}
    (hside : a.object.isConstructor = b.object.isConstructor)
    (hkey : (a.propertyKey.filter JsText.truthy).isSome =
      (b.propertyKey.filter JsText.truthy).isSome)
    (hown : ∀ k r, a.slot = some k → k.1 ≠ .ref r) : Agree m a b := by
  rintro ⟨target, key⟩ ha hb
  obtain ⟨hta, hka⟩ := slot_eq_some_iff.mp ha
  obtain ⟨htb, hkb⟩ := slot_eq_some_iff.mp hb
  cases target with
  | ref r => exact absurd rfl (hown _ r ha)
  | cls c =>
      have hsame : a.propertyKey.filter JsText.truthy = b.propertyKey.filter JsText.truthy := by
        cases hfa : a.propertyKey.filter JsText.truthy with
        | none =>
            rw [hfa] at hkey
            exact (Option.isSome_eq_false_iff.mp hkey.symm |> Option.isNone_iff_eq_none.mp).symm
        | some ka =>
            rw [hfa] at hkey hka
            obtain ⟨kb, hfb⟩ := Option.isSome_iff_exists.mp hkey.symm
            rw [hfb] at hkb ⊢
            exact congrArg some (hka.trans hkb.symm)
      rw [Call.declaration, Call.declaration, hsame,
        declaration_congr hside ((cls_of_target hta).trans (cls_of_target htb).symm)]

/-- A restriction that only admins may pass, looked up on an instance first. -/
theorem class_restriction_lost :
    ∃ (m : Models Unit) (cs : List (Call Unit Unit)),
      outcomes m .empty cs ≠ cs.map fun c => .ok (m.getMetadata c.object
        (c.propertyKey.filter JsText.truthy)) := by
  refine ⟨{ ClassHierarchy.flat Unit with
      restricted := fun _ => some [.role "admin"]
      staticRestricted := fun _ _ => none
      memberRestricted := fun _ _ => none },
    [⟨.instance_ () none, none⟩, ⟨.constructor (), none⟩], ?_⟩
  decide

end RestrictedCache
