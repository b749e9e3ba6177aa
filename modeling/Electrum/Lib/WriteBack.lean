import Electrum.Lib.OrderedMap

/-!
# Stacked write-back caches

A value is looked up in the top cache of a stack, then in the next one, and last in a database.
Every cache keeps what passed through it, writes are made in a cache, and flushing a cache pours
its dirty entries into what lies below it.  A value can be *pruned*: to a reader it is as if it
were not there.  An entry is *fresh* when nothing below it has a value, and then it is dropped
instead of being kept pruned.

The stack is coherent when every clean entry agrees with what lies below it and every fresh
entry has nothing below it.  A coherent stack is one flat map, whatever its caches hold, as long
as nobody writes behind an entry of a higher cache and nobody calls an entry fresh that is not.

Main results:
* `CacheKind.Simulates.step` — one operation on the stack is the same operation on the flat map
* `CacheKind.Simulates.run` — and so is any sequence of them
* `CacheKind.Simulates.flushAll` — flushing every cache leaves the flat map in the database
-/

namespace Electrum

open Option Bool Std.ExtTreeMap

/-- The values that a stack caches, and how its database holds them. -/
structure CacheKind (α β : Type) where
  isPruned : α → Bool
  empty : α
  /-- Whether a lookup that meets this value reports it. -/
  found : α → Bool
  /-- An entry is dirty as soon as it is loaded. -/
  loadDirty : Bool
  /-- Entries with nothing below them are marked. -/
  tracksFresh : Bool
  write : α → β
  read : β → Option α
  pruned_empty : isPruned empty = true
  found_unpruned : ∀ a, isPruned a = false → found a = true

structure CacheEntry (α : Type) where
  value : α
  dirty : Bool
  fresh : Bool
  deriving DecidableEq, Repr

/-- Caches, the top one first. -/
abbrev Layers (κ α : Type) [Ord κ] := List (Map κ (CacheEntry α))

/-- Caches over a database. -/
structure CacheStack (κ α β : Type) [Ord κ] where
  layers : Layers κ α
  db : Map κ β

/-- An operation, with the depth of the cache it is called on. -/
inductive CacheOp (κ α : Type) where
  | read (depth : Nat) (k : κ)
  | modify (depth : Nat) (k : κ) (edit : α → α)
  | create (depth : Nat) (k : κ) (overwrite : Bool) (edit : α → α)
  | uncache (depth : Nat) (k : κ)
  | flush (depth : Nat)

namespace CacheKind

variable {κ α β : Type} [Ord κ] [Std.TransOrd κ] [Std.LawfulEqOrd κ] [DecidableEq κ]
variable (T : CacheKind α β)

/-! ## The operations -/

/-- Look a key up, keeping what is found in every cache it passes. -/
def fetch (db : Map κ β) (k : κ) : Layers κ α → Layers κ α × Option α
  | [] => ([], (db[k]?).bind T.read)
  | l :: below =>
    match l[k]? with
    | some e => (l :: below, if T.found e.value then some e.value else none)
    | none =>
      match fetch db k below with
      | (below', some a) =>
        if T.found a then
          (l.insert k ⟨a, T.loadDirty, T.tracksFresh && T.isPruned a⟩ :: below', some a)
        else (l :: below', none)
      | (below', none) => (l :: below', none)

/-- Put an entry into a cache, unless nobody could tell that it is there. -/
def settle (l : Map κ (CacheEntry α)) (k : κ) (e : CacheEntry α) : Map κ (CacheEntry α) :=
  if e.fresh && T.isPruned e.value then l.erase k else l.insert k e

/-- Edit the value of the top cache, loading it first if need be. -/
def modify (db : Map κ β) (k : κ) (edit : α → α) : Layers κ α → Layers κ α
  | [] => []
  | l :: below =>
    match l[k]? with
    | some e => T.settle l k { e with value := edit e.value, dirty := true } :: below
    | none =>
      match T.fetch db k below with
      | (below', some a) =>
        T.settle l k ⟨edit a, true, T.tracksFresh && T.isPruned a⟩ :: below'
      | (below', none) => T.settle l k ⟨edit T.empty, true, T.tracksFresh⟩ :: below'

/-- Write a new value without looking at the old one.  Unless it may overwrite one, the new
entry is taken to be fresh. -/
def create (k : κ) (overwrite : Bool) (edit : α → α) : Layers κ α → Layers κ α
  | [] => []
  | l :: below =>
    T.settle l k ⟨edit T.empty, true, !overwrite || (l[k]?).any (·.fresh)⟩ :: below

/-- Forget an entry that carries no mark. -/
def uncache (k : κ) : Layers κ α → Layers κ α
  | [] => []
  | l :: below =>
    (if (l[k]?).any (fun e => !e.dirty && !e.fresh) then l.erase k else l) :: below

/-- What a cache keeps of an entry that the cache above it pours down. -/
def mergeEntry (mine : Option (CacheEntry α)) (e : CacheEntry α) : Option (CacheEntry α) :=
  if e.dirty then
    match mine with
    | none => if e.fresh && T.isPruned e.value then none else some ⟨e.value, true, e.fresh⟩
    | some u =>
      if u.fresh && T.isPruned e.value then none
      else some { u with value := e.value, dirty := true }
  else mine

/-- What the database keeps of it. -/
def storeEntry (stored : Option β) (e : CacheEntry α) : Option β :=
  if e.dirty then (if T.isPruned e.value then none else some (T.write e.value)) else stored

/-- Pour the top cache into what lies below it. -/
def flush (db : Map κ β) : Layers κ α → Layers κ α × Map κ β
  | [] => ([], db)
  | [l] => ([∅], Map.pour T.storeEntry db l)
  | l :: l' :: below => (∅ :: Map.pour T.mergeEntry l' l :: below, db)

/-- Everything that is there, the entries of a cache before those below it. -/
def listAll (db : Map κ β) : Layers κ α → Option (Map κ α)
  | [] =>
    if db.toList.all fun it => (T.read it.2).isSome then some (db.filterMap fun _ b => T.read b)
    else none
  | l :: below =>
    (listAll db below).map fun base =>
      (Map.pour (fun _ e => some e.value) (base.filter fun _ a => !T.isPruned a) l).filter
        fun _ a => !T.isPruned a

end CacheKind

namespace CacheStack

variable {κ α β : Type} [Ord κ] [Std.TransOrd κ] [Std.LawfulEqOrd κ] [DecidableEq κ]

/-- Run a function on the caches from some depth on. -/
def atDepth (s : CacheStack κ α β) (depth : Nat)
    (f : Layers κ α → Layers κ α) : CacheStack κ α β :=
  { s with layers := s.layers.take depth ++ f (s.layers.drop depth) }

def step (T : CacheKind α β) (s : CacheStack κ α β) : CacheOp κ α → CacheStack κ α β
  | .read depth k => s.atDepth depth fun lower => (T.fetch s.db k lower).1
  | .modify depth k edit => s.atDepth depth (T.modify s.db k edit)
  | .create depth k overwrite edit => s.atDepth depth (T.create k overwrite edit)
  | .uncache depth k => s.atDepth depth (CacheKind.uncache k)
  | .flush depth =>
    let r := T.flush s.db (s.layers.drop depth)
    ⟨s.layers.take depth ++ r.1, r.2⟩

/-- Flush every cache, from the top to the bottom. -/
def flushAll (s : CacheStack κ α β) : List (CacheOp κ α) :=
  (List.range s.layers.length).map .flush

end CacheStack

namespace CacheKind

variable {κ α β : Type} [Ord κ] [Std.TransOrd κ] (T : CacheKind α β)

/-! ## The content of a stack -/

/-- A value as a reader sees it. -/
def live (o : Option α) : Option α := o.filter fun a => !T.isPruned a

theorem live_some (a : α) : T.live (some a) = if T.isPruned a then none else some a := by
  cases h : T.isPruned a <;> simp [live, h]

variable {a : α} {db db' : Map κ β} {l : Map κ (CacheEntry α)} {e : CacheEntry α} {k j : κ}
  {lower lower' upper below layers : Layers κ α} {edit : α → α}
  {s : CacheStack κ α β} {m : Map κ α}

theorem live_pruned (h : T.isPruned a = true) : T.live (some a) = none := by
  rw [live_some, if_pos h]

theorem live_unpruned (h : T.isPruned a = false) : T.live (some a) = some a := by
  rw [live_some, h]
  rfl

/-- What a reader at the top of a stack sees. -/
def content (db : Map κ β) : Layers κ α → κ → Option α
  | [], k => T.live ((db[k]?).bind T.read)
  | l :: below, k =>
    match l[k]? with
    | some e => T.live (some e.value)
    | none => content db below k

variable {T}

theorem content_hit (h : l[k]? = some e) (below : Layers κ α) :
    T.content db (l :: below) k = T.live (some e.value) := by
  rw [content, h]

theorem content_miss (h : l[k]? = none) (below : Layers κ α) :
    T.content db (l :: below) k = T.content db below k := by
  rw [content, h]

theorem content_append (h : T.content db' lower' k = T.content db lower k) (upper : Layers κ α) :
    T.content db' (upper ++ lower') k = T.content db (upper ++ lower) k := by
  induction upper with
  | nil => exact h
  | cons l upper ih =>
    rw [List.cons_append, List.cons_append, content, content, ih]

theorem content_append_miss (h : ∀ l ∈ upper, l[k]? = none) (lower : Layers κ α) :
    T.content db (upper ++ lower) k = T.content db lower k := by
  induction upper with
  | nil => rfl
  | cons l upper ih =>
    rw [List.forall_mem_cons] at h
    rw [List.cons_append, content_miss h.1, ih h.2]

/-- A key that an upper cache covers. -/
theorem content_append_hit
    (h : ¬ ∀ l ∈ upper, l[k]? = none) (db db' : Map κ β) (lower lower' : Layers κ α) :
    T.content db' (upper ++ lower') k = T.content db (upper ++ lower) k := by
  induction upper with
  | nil => exact absurd (fun _ hl => absurd hl List.not_mem_nil) h
  | cons l upper ih =>
    rw [List.cons_append, List.cons_append, content, content]
    cases hk : l[k]? with
    | some e => rfl
    | none =>
      refine ih fun hUpper => h ?_
      rw [List.forall_mem_cons]
      exact ⟨hk, hUpper⟩

/-! ## Coherence -/

variable (T)

/-- What an entry says about the value below it. -/
structure EntrySound (below : Option α) (e : CacheEntry α) : Prop where
  clean : e.dirty = false → T.live (some e.value) = below
  fresh : e.fresh = true → below = none

variable {T} in
theorem EntrySound.of_dirty {below : Option α} {fresh : Bool}
    (hFresh : fresh = true → below = none) : T.EntrySound below ⟨a, true, fresh⟩ where
  clean := fun hClean => nomatch hClean
  fresh := hFresh

/-- What the database holds can be read and is not pruned. -/
def Stored (b : β) : Prop := ∃ a, T.read b = some a ∧ T.isPruned a = false

instance (b : β) : Decidable (T.Stored b) :=
  decidable_of_iff ((T.read b).any (fun a => !T.isPruned a) = true) (by
    simp [Stored, any_eq_true])

def Coherent (db : Map κ β) : Layers κ α → Prop
  | [] => ∀ (k : κ) (b : β), db[k]? = some b → T.Stored b
  | l :: below =>
    (∀ (k : κ) (e : CacheEntry α), l[k]? = some e → T.EntrySound (T.content db below k) e) ∧
      Coherent db below

variable {T}

/-- The part of the stack below some depth can be exchanged for one that the caches above it
cannot tell apart. -/
theorem Coherent.exchange (h : T.Coherent db (upper ++ lower)) (hLower : T.Coherent db' lower')
    (hSame : ∀ k, T.content db' lower' k = T.content db lower k ∨ ∀ l ∈ upper, l[k]? = none) :
    T.Coherent db' (upper ++ lower') := by
  induction upper with
  | nil => exact hLower
  | cons l upper ih =>
    obtain ⟨hTop, hRest⟩ := h
    refine ⟨fun k e hk => ?_, ih hRest fun k => (hSame k).imp_right (List.forall_mem_cons.mp · |>.2)⟩
    rcases hSame k with hEq | hMiss
    · change T.EntrySound (T.content db' (upper ++ lower') k) e
      rw [content_append hEq]
      exact hTop k e hk
    · rw [(List.forall_mem_cons.mp hMiss).1] at hk
      cases hk

/-- What lies below the top cache can be exchanged for something with the same content. -/
theorem Coherent.exchange_tail (h : T.Coherent db (l :: below)) (hLower : T.Coherent db lower)
    (hSame : ∀ k, T.content db lower k = T.content db below k) :
    T.Coherent db (l :: lower) ∧ ∀ k, T.content db (l :: lower) k = T.content db (l :: below) k :=
  have hAll : T.Coherent db ([l] ++ below) := h
  ⟨hAll.exchange hLower fun k => .inl (hSame k), fun k => content_append (hSame k) [l]⟩

theorem Coherent.of_append (h : T.Coherent db (upper ++ lower)) : T.Coherent db lower := by
  induction upper with
  | nil => exact h
  | cons l upper ih => exact ih h.2

theorem Coherent.database
    (h : T.Coherent db layers) {b : β} (hk : db[k]? = some b) : T.Stored b := by
  have hBottom : T.Coherent db (layers ++ []) := by rwa [List.append_nil]
  exact hBottom.of_append k b hk

theorem content_eq_elim (db : Map κ β) (l : Map κ (CacheEntry α)) (below : Layers κ α) (k : κ) :
    T.content db (l :: below) k =
      (l[k]?).elim (T.content db below k) fun u => T.live (some u.value) := by
  rw [content]
  cases l[k]? <;> rfl

theorem content_empty (db : Map κ β) (below : Layers κ α) (k : κ) :
    T.content db (∅ :: below) k = T.content db below k :=
  content_miss (by simp) below

theorem Coherent.cons_empty (h : T.Coherent db below) : T.Coherent db (∅ :: below) :=
  ⟨fun k e hk => by simp at hk, h⟩

theorem live_content (db : Map κ β) (layers : Layers κ α) (k : κ) :
    T.live (T.content db layers k) = T.content db layers k := by
  induction layers with
  | nil => simp [content, live]
  | cons l below ih =>
    rw [content]
    split
    · simp [live]
    · exact ih

/-- The database as a map of values. -/
theorem getElem?_database (h : T.Coherent db []) (k : κ) :
    (db.filterMap fun _ b => T.read b)[k]? = T.content db [] k := by
  rw [content]
  cases hk : db[k]? with
  | none => simp [getElem?_filterMap, hk, live]
  | some b =>
    obtain ⟨a, hRead, hUnpruned⟩ := h k b hk
    simp [getElem?_filterMap, hk, hRead, live_unpruned T hUnpruned]

/-! ## Reading -/

theorem live_found (a : α) : T.live (if T.found a then some a else none) = T.live (some a) := by
  split
  case isTrue => rfl
  case isFalse hFound =>
    cases hPruned : T.isPruned a with
    | true => rw [live_pruned T hPruned]; rfl
    | false => exact absurd (T.found_unpruned a hPruned) hFound

/-- What a lookup does: it reports the content and changes none. -/
structure Fetched (T : CacheKind α β) (db : Map κ β) (k : κ) (layers : Layers κ α)
    (r : Layers κ α × Option α) : Prop where
  coherent : T.Coherent db r.1
  same : ∀ j, T.content db r.1 j = T.content db layers j
  reports : T.live r.2 = T.content db layers k

/-- An entry that was just loaded. -/
theorem entrySound_loaded {below : Option α} (hBelow : T.live (some a) = below) :
    T.EntrySound below ⟨a, T.loadDirty, T.tracksFresh && T.isPruned a⟩ where
  clean := fun _ => hBelow
  fresh := by
    intro hFresh
    rw [and_eq_true] at hFresh
    rw [← hBelow, live_pruned T hFresh.2]

/-- A lookup reports the content, whatever the caches hold. -/
theorem live_fetch (db : Map κ β) (k : κ) (layers : Layers κ α) :
    T.live (T.fetch db k layers).2 = T.content db layers k := by
  induction layers with
  | nil => rfl
  | cons l below ih =>
    rw [CacheKind.fetch]
    split
    case h_1 e hk =>
      rw [content_hit hk]
      exact live_found e.value
    case h_2 hk =>
      rw [content_miss hk, ← ih]
      generalize T.fetch db k below = r
      obtain ⟨below', _ | a⟩ := r
      · rfl
      · dsimp only
        split
        case isTrue => rfl
        case isFalse hFound =>
          rw [← live_found a, if_neg hFound]

variable [Std.LawfulEqOrd κ] [DecidableEq κ]

/-- Reading a key caches it and keeps the content. -/
theorem Coherent.fetch (h : T.Coherent db layers) (k : κ) :
    Fetched T db k layers (T.fetch db k layers) := by
  suffices hKeeps : T.Coherent db (T.fetch db k layers).1 ∧
      ∀ j, T.content db (T.fetch db k layers).1 j = T.content db layers j from
    ⟨hKeeps.1, hKeeps.2, live_fetch db k layers⟩
  induction layers with
  | nil => exact ⟨h, fun _ => rfl⟩
  | cons l below ih =>
    obtain ⟨hBelow, hSame⟩ := ih h.2
    have hReports := live_fetch (T := T) db k below
    rw [CacheKind.fetch]
    split
    case h_1 => exact ⟨h, fun _ => rfl⟩
    case h_2 hk =>
      generalize T.fetch db k below = r at hBelow hSame hReports
      obtain ⟨below', o⟩ := r
      have hKeep := h.exchange_tail hBelow hSame
      cases o with
      | none => exact hKeep
      | some a =>
        dsimp only at hReports ⊢
        split
        case isFalse => exact hKeep
        case isTrue =>
          refine ⟨⟨fun j e hj => ?_, hBelow⟩, fun j => ?_⟩
          · rw [getElem?_insert] at hj
            split at hj
            case isTrue hEq =>
              cases hj
              rw [Std.compare_eq_iff_eq] at hEq
              subst hEq
              rw [hSame]
              exact entrySound_loaded hReports
            case isFalse => exact hKeep.1.1 j e hj
          · by_cases hEq : k = j
            · subst hEq
              rw [content_hit (by rw [getElem?_insert_self]), hReports, content_miss hk]
            · rw [← hKeep.2, content, content, getElem?_insert]
              rw [if_neg (by rwa [Std.compare_eq_iff_eq])]

/-! ## Writing -/

theorem getElem?_settle (l : Map κ (CacheEntry α)) (k j : κ) (e : CacheEntry α) :
    (T.settle l k e)[j]? = if k = j then
      (if e.fresh && T.isPruned e.value then none else some e) else l[j]? := by
  unfold settle
  split
  · simp [getElem?_erase]
  · simp [getElem?_insert]

/-- Settling a sound entry changes the content under its key only. -/
theorem Coherent.settle (h : T.Coherent db (l :: below))
    (hNew : T.EntrySound (T.content db below k) e) :
    T.Coherent db (T.settle l k e :: below) ∧ ∀ j, T.content db (T.settle l k e :: below) j =
      if k = j then T.live (some e.value) else T.content db (l :: below) j := by
  constructor
  · refine ⟨fun j e' hj => ?_, h.2⟩
    rw [getElem?_settle] at hj
    split at hj
    case isFalse => exact h.1 j e' hj
    case isTrue hEq =>
      subst hEq
      split at hj
      case isTrue => cases hj
      case isFalse =>
        cases hj
        exact hNew
  · intro j
    rw [content, content, getElem?_settle]
    by_cases hEq : k = j
    case neg => rw [if_neg hEq, if_neg hEq]
    case pos =>
      subst hEq
      rw [if_pos rfl, if_pos rfl]
      cases hDrop : e.fresh && T.isPruned e.value with
      | false => rfl
      | true =>
        -- the entry is dropped: nothing lies below it, and it is pruned itself
        rw [and_eq_true] at hDrop
        rw [live_pruned T hDrop.2]
        exact hNew.fresh hDrop.1

variable (T) in
/-- An edit that finds a pruned value does what it does to the empty one. -/
def Blind (edit : α → α) : Prop :=
  ∀ a, T.isPruned a = true → T.live (some (edit a)) = T.live (some (edit T.empty))

theorem live_edit {c : Option α} (ha : T.live (some a) = c) (h : c.isSome = true ∨ T.Blind edit) :
    T.live (some (edit a)) = T.live (some (edit (c.getD T.empty))) := by
  subst ha
  cases hPruned : T.isPruned a with
  | true =>
    rw [live_pruned T hPruned] at h ⊢
    exact (h.resolve_left false_ne_true) a hPruned
  | false =>
    rw [live_unpruned T hPruned]
    rfl

/-- An edit in the top layer is an edit of the content. -/
theorem Coherent.modify (h : T.Coherent db layers) (hLayers : 0 < layers.length)
    (hBlind : (T.content db layers k).isSome = true ∨ T.Blind edit) :
    T.Coherent db (T.modify db k edit layers) ∧ ∀ j, T.content db (T.modify db k edit layers) j =
      if k = j then T.live (some (edit ((T.content db layers k).getD T.empty)))
      else T.content db layers j := by
  obtain ⟨l, below, rfl⟩ := List.exists_cons_of_length_pos hLayers
  rw [CacheKind.modify]
  split
  case h_1 e hk =>
    have hHit : T.content db (l :: below) k = T.live (some e.value) := content_hit hk below
    have hLive := live_edit hHit.symm hBlind
    have hNew : T.EntrySound (T.content db below k)
        { e with value := edit e.value, dirty := true } :=
      .of_dirty (h.1 k e hk).fresh
    refine ⟨(h.settle hNew).1, fun j => ?_⟩
    rw [(h.settle hNew).2 j, hLive]
  case h_2 hk =>
    have hBelow := h.2.fetch k
    generalize T.fetch db k below = r at hBelow
    obtain ⟨below', o⟩ := r
    obtain ⟨hKeep, hSame⟩ := h.exchange_tail hBelow.coherent hBelow.same
    have hReports : T.live o = T.content db (l :: below) k := by
      rw [content_miss hk]
      exact hBelow.reports
    have hUnder : T.content db below' k = T.live o := by rw [hBelow.same, hBelow.reports]
    cases o with
    | some a =>
      have hLive := live_edit hReports hBlind
      have hNew : T.EntrySound (T.content db below' k)
          ⟨edit a, true, T.tracksFresh && T.isPruned a⟩ := by
        refine .of_dirty fun hFresh => ?_
        rw [and_eq_true] at hFresh
        rw [hUnder, live_pruned T hFresh.2]
      refine ⟨(hKeep.settle hNew).1, fun j => ?_⟩
      rw [(hKeep.settle hNew).2 j, hLive, hSame]
    | none =>
      -- nothing below holds the key, so the entry may be fresh
      rw [← hReports]
      have hNew : T.EntrySound (T.content db below' k) ⟨edit T.empty, true, T.tracksFresh⟩ :=
        .of_dirty fun _ => hUnder
      refine ⟨(hKeep.settle hNew).1, fun j => ?_⟩
      rw [(hKeep.settle hNew).2 j, hSame]
      rfl

theorem Coherent.create (h : T.Coherent db layers) (hLayers : 0 < layers.length) {overwrite : Bool}
    (hNothing : overwrite = true ∨ T.content db layers.tail k = none) (edit : α → α) :
    T.Coherent db (T.create k overwrite edit layers) ∧
      ∀ j, T.content db (T.create k overwrite edit layers) j =
        if k = j then T.live (some (edit T.empty)) else T.content db layers j := by
  obtain ⟨l, below, rfl⟩ := List.exists_cons_of_length_pos hLayers
  refine h.settle (.of_dirty fun hFresh => ?_)
  rw [or_eq_true, not_eq_true'] at hFresh
  rcases hFresh with hNew | hOld
  · exact hNothing.resolve_left (by rw [hNew]; decide)
  · obtain ⟨e, hk, hFresh⟩ := (any_eq_true _ _).mp hOld
    exact (h.1 k e hk).fresh hFresh

/-! ## Forgetting and flushing -/

theorem Coherent.uncache (h : T.Coherent db layers) (k : κ) :
    T.Coherent db (CacheKind.uncache k layers) ∧
      ∀ j, T.content db (CacheKind.uncache k layers) j = T.content db layers j := by
  cases layers with
  | nil => exact ⟨h, fun _ => rfl⟩
  | cons l below =>
    rw [CacheKind.uncache]
    split
    case isFalse => exact ⟨h, fun _ => rfl⟩
    case isTrue hMarks =>
      obtain ⟨e, hk, hClean⟩ := (any_eq_true _ _).mp hMarks
      rw [and_eq_true, not_eq_true'] at hClean
      have hErase : ∀ j, (l.erase k)[j]? = if k = j then none else l[j]? := by
        simp [getElem?_erase]
      refine ⟨⟨fun j e' hj => ?_, h.2⟩, fun j => ?_⟩
      · rw [hErase] at hj
        split at hj
        case isTrue => cases hj
        case isFalse => exact h.1 j e' hj
      · by_cases hEq : k = j
        case neg => rw [content, content, hErase, if_neg hEq]
        case pos =>
          subst hEq
          rw [content_miss (by rw [hErase, if_pos rfl]), content_hit hk]
          exact ((h.1 k e hk).clean hClean.1).symm

/-- What a cache gets from the one above it: the entry it then has is sound, and it shows what
the one above it showed. -/
theorem EntrySound.merge {below : Option α} {mine : Option (CacheEntry α)}
    (hMine : ∀ u, mine = some u → T.EntrySound below u)
    (hAbove : T.EntrySound (mine.elim below fun u => T.live (some u.value)) e) :
    (∀ u, T.mergeEntry mine e = some u → T.EntrySound below u) ∧
      (T.mergeEntry mine e).elim below (fun u => T.live (some u.value)) =
        T.live (some e.value) := by
  unfold mergeEntry
  cases hDirty : e.dirty with
  | false => exact ⟨hMine, (hAbove.clean hDirty).symm⟩
  | true =>
    cases mine with
    | none =>
      cases hDrop : e.fresh && T.isPruned e.value with
      | true =>
        rw [and_eq_true] at hDrop
        refine ⟨fun u hu => (by cases hu), ?_⟩
        rw [live_pruned T hDrop.2]
        exact hAbove.fresh hDrop.1
      | false =>
        refine ⟨fun u hu => ?_, rfl⟩
        cases hu
        exact .of_dirty hAbove.fresh
    | some mine =>
      have hBelow := hMine mine rfl
      dsimp only
      cases hDrop : mine.fresh && T.isPruned e.value with
      | true =>
        rw [and_eq_true] at hDrop
        refine ⟨fun u hu => (by cases hu), ?_⟩
        rw [live_pruned T hDrop.2]
        exact hBelow.fresh hDrop.1
      | false =>
        refine ⟨fun u hu => ?_, rfl⟩
        cases hu
        exact .of_dirty hBelow.fresh

theorem Coherent.merge {l' : Map κ (CacheEntry α)} (h : T.Coherent db (l :: l' :: below)) :
    T.Coherent db (Map.pour T.mergeEntry l' l :: below) ∧
      ∀ k, T.content db (Map.pour T.mergeEntry l' l :: below) k =
        T.content db (l :: l' :: below) k := by
  have hAt : ∀ k e, l[k]? = some e →
      (∀ u, T.mergeEntry l'[k]? e = some u → T.EntrySound (T.content db below k) u) ∧
        (T.mergeEntry l'[k]? e).elim (T.content db below k) (fun u => T.live (some u.value)) =
          T.live (some e.value) := by
    intro k e hk
    refine EntrySound.merge (h.2.1 k) ?_
    rw [← content_eq_elim]
    exact h.1 k e hk
  refine ⟨⟨fun k u hu => ?_, h.2.2⟩, fun k => ?_⟩
  · rw [Map.getElem?_pour] at hu
    split at hu
    case h_1 e hk => exact (hAt k e hk).1 u hu
    case h_2 => exact h.2.1 k u hu
  · rw [content_eq_elim, Map.getElem?_pour]
    split
    case h_1 e hk => rw [(hAt k e hk).2, content_hit hk]
    case h_2 hk => rw [content_miss hk, content_eq_elim]

variable (T) in
/-- The database gives back what the cache has to write. -/
def Storable (l : Map κ (CacheEntry α)) : Prop :=
  ∀ (k : κ) (e : CacheEntry α), l[k]? = some e → e.dirty = true → T.isPruned e.value = false →
    T.read (T.write e.value) = some e.value

variable (T) in
/-- The condition for the top one of some caches; only the last one writes to the database. -/
def FlushStorable : Layers κ α → Prop
  | [l] => T.Storable l
  | _ => True

/-- The lowest layer is written to the database. -/
theorem Coherent.store (h : T.Coherent db [l]) (hKept : T.Storable l) :
    T.Coherent (Map.pour T.storeEntry db l) [] ∧
      ∀ k, T.content (Map.pour T.storeEntry db l) [] k = T.content db [l] k := by
  constructor
  · intro k b hb
    rw [Map.getElem?_pour] at hb
    split at hb
    case h_2 => exact h.2 k b hb
    case h_1 e hk =>
      unfold storeEntry at hb
      split at hb
      case isFalse => exact h.2 k b hb
      case isTrue hDirty =>
        split at hb
        case isTrue => cases hb
        case isFalse hLive =>
          cases hb
          have hUnpruned := eq_false_iff.mpr hLive
          exact ⟨e.value, hKept k e hk hDirty hUnpruned, hUnpruned⟩
  · intro k
    rw [content, Map.getElem?_pour]
    split
    case h_2 hk => rw [content_miss hk, content]
    case h_1 e hk =>
      rw [content_hit hk]
      unfold storeEntry
      split
      case isFalse hClean => exact ((h.1 k e hk).clean (eq_false_iff.mpr hClean)).symm
      case isTrue hDirty =>
        cases hPruned : T.isPruned e.value with
        | true =>
          rw [live_pruned T hPruned]
          rfl
        | false => simp only [false_eq_true, if_false, bind_some, hKept k e hk hDirty hPruned]

/-- Flushing the top cache changes nothing for a reader. -/
theorem Coherent.flush (h : T.Coherent db layers) (hKept : T.FlushStorable layers) :
    T.Coherent (T.flush db layers).2 (T.flush db layers).1 ∧
      ∀ k, T.content (T.flush db layers).2 (T.flush db layers).1 k = T.content db layers k := by
  match layers, h, hKept with
  | [], h, _ => exact ⟨h, fun _ => rfl⟩
  | [l], h, hKept =>
    obtain ⟨hCoherent, hSame⟩ := h.store hKept
    exact ⟨hCoherent.cons_empty, fun k => (content_empty _ _ k).trans (hSame k)⟩
  | l :: l' :: below, h, _ =>
    exact ⟨h.merge.1.cons_empty, fun k => (content_empty _ _ k).trans (h.merge.2 k)⟩

/-- A value that the database keeps in some form is still there after a flush. -/
theorem Coherent.flush_kept (h : T.Coherent db layers) (ha : T.content db layers k = some a)
    (hKept : T.Stored (T.write a)) :
    (T.content (T.flush db layers).2 (T.flush db layers).1 k).isSome = true := by
  match layers, h, ha with
  | [], _, ha => exact isSome_of_eq_some ha
  | l :: l' :: below, h, ha =>
    exact isSome_of_eq_some ((content_empty _ _ k).trans ((h.merge.2 k).trans ha))
  | [l], h, ha =>
    show (T.content (Map.pour T.storeEntry db l) [∅] k).isSome = true
    rw [content_empty, content, Map.getElem?_pour]
    cases hk : l[k]? with
    | none =>
      rw [content_miss hk] at ha
      exact isSome_of_eq_some ha
    | some e =>
      rw [content_hit hk] at ha
      dsimp only [storeEntry]
      split
      case isFalse hClean =>
        rw [(h.1 k e hk).clean (eq_false_iff.mpr hClean)] at ha
        exact isSome_of_eq_some ha
      case isTrue =>
        rw [live_some] at ha
        split at ha
        case isTrue => cases ha
        case isFalse hLive =>
          obtain ⟨a', hRead, hUnpruned⟩ := hKept
          rw [if_neg hLive, bind_some, some.inj ha, hRead, live_unpruned T hUnpruned]
          rfl

/-! ## Listing -/

/-- The listing of a cache, from a listing of what lies below it. -/
theorem listAll_cons {base : Map κ α}
    (hBase : T.listAll db below = some base) (hAt : ∀ k, T.live base[k]? = T.content db below k)
    (l : Map κ (CacheEntry α)) :
    ∃ m, T.listAll db (l :: below) = some m ∧ ∀ k, m[k]? = T.content db (l :: below) k := by
  refine ⟨_, by rw [CacheKind.listAll, hBase]; rfl, fun k => ?_⟩
  have hFilter : ∀ m : Map κ α, (m.filter fun _ a => !T.isPruned a)[k]? = T.live m[k]? := by
    intro m
    rw [getElem?_filter, pfilter_eq_filter]
    rfl
  have hPour : (Map.pour (fun _ e => some e.value) (base.filter fun _ a => !T.isPruned a) l)[k]? =
      (l[k]?).elim (T.content db below k) fun e => some e.value := by
    rw [Map.getElem?_pour, hFilter, hAt]
    cases l[k]? with
    | none => rfl
    | some e => rfl
  rw [hFilter, hPour, content_eq_elim]
  cases l[k]? with
  | none => exact live_content db below k
  | some e => rfl

/-- A listing shows under every key what a lookup would report. -/
theorem Coherent.listAll (h : T.Coherent db layers) :
    ∃ m, T.listAll db layers = some m ∧ ∀ k, m[k]? = T.content db layers k := by
  induction layers with
  | nil =>
    have hAll : (db.toList.all fun it => (T.read it.2).isSome) = true := by
      rw [List.all_eq_true]
      intro it hIt
      obtain ⟨a, hRead, _⟩ := h it.1 it.2 (mem_toList_iff_getElem?_eq_some.mp hIt)
      rw [hRead]
      rfl
    exact ⟨db.filterMap fun _ b => T.read b, if_pos hAll, getElem?_database h⟩
  | cons l below ih =>
    obtain ⟨base, hBase, hAt⟩ := ih h.2
    exact listAll_cons hBase (fun k => by rw [hAt, live_content]) l

/-- The same for any caches over a database that can be read as a whole. -/
theorem listAll_readable (hRead : ∀ b, (T.read b).isSome = true) (db : Map κ β)
    (hLayers : layers ≠ []) :
    ∃ m, T.listAll db layers = some m ∧ ∀ k, m[k]? = T.content db layers k := by
  induction layers with
  | nil => exact absurd rfl hLayers
  | cons l below ih =>
    cases below with
    | cons l' below =>
      obtain ⟨base, hBase, hAt⟩ := ih (List.cons_ne_nil l' below)
      exact listAll_cons hBase (fun k => by rw [hAt, live_content]) l
    | nil =>
      have hAll : (db.toList.all fun it => (T.read it.2).isSome) = true := by
        rw [List.all_eq_true]
        exact fun it _ => hRead it.2
      have hBase : T.listAll db [] = some (db.filterMap fun _ b => T.read b) := if_pos hAll
      refine listAll_cons hBase (fun k => ?_) l
      rw [getElem?_filterMap, content]
      cases db[k]? <;> rfl

/-! ## One flat map -/

variable (T)

/-- The operation on a single map. -/
def flatStep (m : Map κ α) : CacheOp κ α → Map κ α
  | .modify _ k edit => Map.setUnless T.isPruned m k (edit (m[k]?.getD T.empty))
  | .create _ k _ edit => Map.setUnless T.isPruned m k (edit T.empty)
  | _ => m

/-- No cache above the depth holds an entry under the key. -/
def Uncovered (s : CacheStack κ α β) (depth : Nat) (k : κ) : Prop :=
  depth < s.layers.length ∧ ∀ l ∈ s.layers.take depth, l[k]? = none

/-- Nobody writes behind a higher cache, an edit does not look at what pruning left, nothing is
called fresh that is not, and the database gives back what it gets. -/
def Regular (s : CacheStack κ α β) : CacheOp κ α → Prop
  | .modify depth k edit => Uncovered s depth k ∧
      ((T.content s.db (s.layers.drop depth) k).isSome = true ∨ T.Blind edit)
  | .create depth k overwrite _ => Uncovered s depth k ∧
      (overwrite = true ∨ T.content s.db (s.layers.drop (depth + 1)) k = none)
  | .flush depth => T.FlushStorable (s.layers.drop depth)
  | _ => True

/-- The stack is coherent and shows the flat map. -/
structure Simulates (s : CacheStack κ α β) (m : Map κ α) : Prop where
  coherent : T.Coherent s.db s.layers
  shows : ∀ k, T.content s.db s.layers k = m[k]?

variable {T}

instance (s : CacheStack κ α β) (depth : Nat) (k : κ) : Decidable (Uncovered s depth k) :=
  inferInstanceAs (Decidable (depth < s.layers.length ∧ ∀ l ∈ s.layers.take depth, l[k]? = none))

instance [DecidableEq α] : (layers : Layers κ α) → Decidable (T.FlushStorable layers)
  | [] => .isTrue trivial
  | [l] => inferInstanceAs (Decidable (∀ (k : κ) (e : CacheEntry α), l[k]? = some e →
      e.dirty = true → T.isPruned e.value = false → T.read (T.write e.value) = some e.value))
  | _ :: _ :: _ => .isTrue trivial

omit [Std.LawfulEqOrd κ] [DecidableEq κ] in
/-- The caches from some depth on, and those above it. -/
theorem Coherent.atDepth (h : T.Coherent s.db s.layers) (depth : Nat) :
    T.Coherent s.db (s.layers.take depth ++ s.layers.drop depth) := by
  rwa [List.take_append_drop]

omit [Std.LawfulEqOrd κ] [DecidableEq κ] in
/-- A change below some depth that no reader notices. -/
theorem Simulates.unnoticed (h : T.Simulates s m) (depth : Nat) (hLower : T.Coherent db lower)
    (hSame : ∀ k, T.content db lower k = T.content s.db (s.layers.drop depth) k) :
    T.Simulates ⟨s.layers.take depth ++ lower, db⟩ m := by
  refine ⟨(h.coherent.atDepth depth).exchange hLower fun k => .inl (hSame k), fun k => ?_⟩
  rw [← h.shows, content_append (hSame k), List.take_append_drop]

variable {depth : Nat}

/-- A write below some depth that no higher cache covers. -/
theorem Simulates.written (h : T.Simulates s m) (hTop : ∀ l ∈ s.layers.take depth, l[k]? = none)
    (hLower : T.Coherent s.db lower) (hWrite : ∀ j, T.content s.db lower j =
      if k = j then T.live (some a) else T.content s.db (s.layers.drop depth) j) :
    T.Simulates ⟨s.layers.take depth ++ lower, s.db⟩ (Map.setUnless T.isPruned m k a) := by
  refine ⟨(h.coherent.atDepth depth).exchange hLower fun j => ?_, fun j => ?_⟩
  · by_cases hEq : k = j
    · subst hEq
      exact .inr hTop
    · rw [hWrite, if_neg hEq]
      exact .inl rfl
  · rw [Map.getElem?_setUnless]
    by_cases hEq : k = j
    · subst hEq
      rw [content_append_miss hTop, hWrite, if_pos rfl, if_pos rfl, live_some]
    · have hSame : T.content s.db lower j = T.content s.db (s.layers.drop depth) j := by
        rw [hWrite, if_neg hEq]
      rw [if_neg hEq, ← h.shows, content_append hSame, List.take_append_drop]

omit [Std.LawfulEqOrd κ] [DecidableEq κ] in
/-- What the flat map has is what the caches from an uncovered depth on show. -/
theorem Simulates.content_below (h : T.Simulates s m) (hTop : ∀ l ∈ s.layers.take depth, l[k]? = none) :
    T.content s.db (s.layers.drop depth) k = m[k]? := by
  rw [← h.shows, ← content_append_miss hTop, List.take_append_drop]

/-- **Step.** An operation on the stack is the same operation on the flat map. -/
theorem Simulates.step (h : T.Simulates s m) {op : CacheOp κ α} (hRegular : T.Regular s op) :
    T.Simulates (s.step T op) (T.flatStep m op) := by
  have hLower : ∀ depth, T.Coherent s.db (s.layers.drop depth) := fun depth =>
    (h.coherent.atDepth depth).of_append
  cases op with
  | read depth k =>
    have hFetch := (hLower depth).fetch k
    exact h.unnoticed depth hFetch.coherent hFetch.same
  | uncache depth k =>
    obtain ⟨hCoherent, hSame⟩ := (hLower depth).uncache k
    exact h.unnoticed depth hCoherent hSame
  | flush depth =>
    obtain ⟨hCoherent, hSame⟩ := (hLower depth).flush hRegular
    exact h.unnoticed depth hCoherent hSame
  | modify depth k edit =>
    obtain ⟨⟨hDepth, hTop⟩, hBlind⟩ := hRegular
    obtain ⟨hCoherent, hWrite⟩ :=
      (hLower depth).modify (List.length_drop ▸ Nat.sub_pos_of_lt hDepth) hBlind
    rw [h.content_below hTop] at hWrite
    exact h.written hTop hCoherent hWrite
  | create depth k overwrite edit =>
    obtain ⟨⟨hDepth, hTop⟩, hNothing⟩ := hRegular
    rw [← List.tail_drop] at hNothing
    obtain ⟨hCoherent, hWrite⟩ :=
      (hLower depth).create (List.length_drop ▸ Nat.sub_pos_of_lt hDepth) hNothing edit
    exact h.written hTop hCoherent hWrite

variable (T) in
/-- Every operation of the sequence is regular where it is called. -/
def RegularRun (s : CacheStack κ α β) : List (CacheOp κ α) → Prop
  | [] => True
  | op :: ops => T.Regular s op ∧ RegularRun (s.step T op) ops

/-- **Run.** A sequence of operations on the stack is the same sequence on the flat map. -/
theorem Simulates.run (h : T.Simulates s m) {ops : List (CacheOp κ α)} (hRun : T.RegularRun s ops) :
    T.Simulates (ops.foldl (CacheStack.step T) s) (ops.foldl T.flatStep m) := by
  induction ops generalizing s m with
  | nil => exact h
  | cons op ops ih => exact ih (h.step hRun.1) hRun.2

end CacheKind

namespace CacheStack

variable {κ α β : Type} [Ord κ] [Std.TransOrd κ] [Std.LawfulEqOrd κ] [DecidableEq κ]
variable (T : CacheKind α β)

/-- What a reader of the cache at some depth gets. -/
def get (s : CacheStack κ α β) (depth : Nat) (k : κ) : Option α :=
  T.live (T.fetch s.db k (s.layers.drop depth)).2

/-- Write a value where there is none. -/
def addNew (s : CacheStack κ α β) (depth : Nat) (k : κ) (a : α) : CacheStack κ α β :=
  if (s.get T depth k).isSome then s.step T (.read depth k)
  else (s.step T (.read depth k)).step T (.create depth k true fun _ => a)

/-- Empty a value that is there. -/
def discard (s : CacheStack κ α β) (depth : Nat) (k : κ) : CacheStack κ α β :=
  if (s.get T depth k).isSome then
    (s.step T (.read depth k)).step T (.create depth k true fun _ => T.empty)
  else s.step T (.read depth k)

end CacheStack

namespace CacheKind

variable {κ α β : Type} [Ord κ] [Std.TransOrd κ] {T : CacheKind α β} {depth : Nat}
  {s : CacheStack κ α β} {m : Map κ α} {k j : κ} {db : Map κ β}

/-! ## Caches above and below -/

theorem length_fetch (db : Map κ β) (k : κ) (layers : Layers κ α) :
    (T.fetch db k layers).1.length = layers.length := by
  induction layers with
  | nil => rfl
  | cons l below ih =>
    rw [CacheKind.fetch]
    split
    · rfl
    · generalize T.fetch db k below = r at ih
      obtain ⟨below', o⟩ := r
      cases o with
      | none => simp [ih]
      | some a =>
        dsimp only
        split <;> simp [ih]

theorem length_modify (db : Map κ β) (k : κ) (edit : α → α) (layers : Layers κ α) :
    (T.modify db k edit layers).length = layers.length := by
  cases layers with
  | nil => rfl
  | cons l below =>
    have hFetch := length_fetch (T := T) db k below
    rw [CacheKind.modify]
    split
    · rfl
    · generalize T.fetch db k below = r at hFetch
      obtain ⟨below', o⟩ := r
      cases o <;> simpa using hFetch

theorem length_create (k : κ) (overwrite : Bool) (edit : α → α) (layers : Layers κ α) :
    (T.create k overwrite edit layers).length = layers.length := by
  cases layers <;> rfl

/-- An operation at some depth leaves the caches above it alone. -/
theorem Uncovered.atDepth (h : Uncovered s depth j) {f : Layers κ α → Layers κ α}
    (hLength : ∀ lower, (f lower).length = lower.length) :
    Uncovered (s.atDepth depth f) depth j := by
  obtain ⟨hDepth, hTop⟩ := h
  have hTake : (s.layers.take depth).length = depth := by
    rw [List.length_take]
    omega
  refine ⟨?_, ?_⟩
  · change depth < (s.layers.take depth ++ f (s.layers.drop depth)).length
    rw [List.length_append, hLength, List.length_drop]
    omega
  · change ∀ l ∈ (s.layers.take depth ++ f (s.layers.drop depth)).take depth, _
    rwa [List.take_left' hTake]

theorem Uncovered.read (h : Uncovered s depth j)
    (k : κ) : Uncovered (s.step T (.read depth k)) depth j :=
  h.atDepth fun lower => length_fetch s.db k lower

theorem Uncovered.modify (h : Uncovered s depth j)
    (k : κ) (edit : α → α) : Uncovered (s.step T (.modify depth k edit)) depth j :=
  h.atDepth (length_modify s.db k edit)

theorem Uncovered.create (h : Uncovered s depth j) (k : κ) (overwrite : Bool) (edit : α → α) :
    Uncovered (s.step T (.create depth k overwrite edit)) depth j :=
  h.atDepth (length_create k overwrite edit)

theorem Uncovered.discard {j : κ} (h : Uncovered s depth j)
    (k : κ) : Uncovered (s.discard T depth k) depth j := by
  unfold CacheStack.discard
  split
  · exact (h.read k).create k true _
  · exact h.read k

theorem length_flush (db : Map κ β) (layers : Layers κ α) :
    (T.flush db layers).1.length = layers.length := by
  match layers with
  | [] => rfl
  | [_] => rfl
  | _ :: _ :: _ => rfl

theorem flush_head {layers : Layers κ α} (h : 0 < layers.length) :
    (T.flush db layers).1[0]? = some ∅ := by
  match layers, h with
  | [_], _ => rfl
  | _ :: _ :: _, _ => rfl

/-- A flush empties its cache and keeps those above it as they are. -/
theorem step_flush (s : CacheStack κ α β) (hDepth : depth < s.layers.length) :
    (s.step T (.flush depth)).layers.length = s.layers.length ∧
      (s.step T (.flush depth)).layers[depth]? = some ∅ ∧
      ∀ i < depth, (s.step T (.flush depth)).layers[i]? = s.layers[i]? := by
  have hTake : (s.layers.take depth).length = depth := by
    rw [List.length_take]
    omega
  refine ⟨?_, ?_, fun i hi => ?_⟩
  · change (s.layers.take depth ++ _).length = _
    rw [List.length_append, length_flush, List.length_drop]
    omega
  · change (s.layers.take depth ++ _)[depth]? = _
    rw [List.getElem?_append_right (by omega), hTake, Nat.sub_self]
    apply flush_head
    rw [List.length_drop]
    omega
  · change (s.layers.take depth ++ _)[i]? = _
    rw [List.getElem?_append_left (by omega), List.getElem?_take_of_lt hi]

/-- After flushing the first `n` caches they are empty. -/
theorem flushed (s : CacheStack κ α β) {n : Nat} (hn : n ≤ s.layers.length) :
    (((List.range n).map CacheOp.flush).foldl (CacheStack.step T) s).layers.length =
        s.layers.length ∧
      ∀ i < n, (((List.range n).map CacheOp.flush).foldl (CacheStack.step T) s).layers[i]? =
        some ∅ := by
  induction n with
  | zero => exact ⟨rfl, fun i hi => absurd hi (Nat.not_lt_zero i)⟩
  | succ n ih =>
    rw [List.range_succ, List.map_append, List.map_singleton, List.foldl_concat]
    generalize ((List.range n).map CacheOp.flush).foldl (CacheStack.step T) s = t at ih
    obtain ⟨hLength, hEmpty⟩ := ih (Nat.le_of_succ_le hn)
    obtain ⟨hSame, hHead, hAbove⟩ := step_flush (T := T) t (show n < t.layers.length by omega)
    refine ⟨hSame.trans hLength, fun i hi => ?_⟩
    by_cases hLast : i < n
    · rw [hAbove i hLast]
      exact hEmpty i hLast
    · have hEq : i = n := by omega
      rw [hEq]
      exact hHead

/-- Empty caches over a database. -/
theorem Simulates.start (hStored : ∀ (k : κ) (b : β), db[k]? = some b → T.Stored b)
    (n : Nat) : T.Simulates ⟨List.replicate n ∅, db⟩ (db.filterMap fun _ b => T.read b) := by
  have hMiss : ∀ k : κ, ∀ l ∈ List.replicate n (∅ : Map κ (CacheEntry α)), l[k]? = none := by
    intro k l hl
    rw [List.eq_of_mem_replicate hl]
    simp
  have hNil : T.Coherent db [] := hStored
  refine ⟨?_, fun k => ?_⟩
  · induction n with
    | zero => exact hNil
    | succ n ih => exact (ih fun k l hl => hMiss k l (List.mem_cons_of_mem _ hl)).cons_empty
  · rw [← List.append_nil (List.replicate n ∅), content_append_miss (hMiss k),
      getElem?_database hNil]

/-! ## Adding and removing -/

variable [Std.LawfulEqOrd κ] [DecidableEq κ]

/-- A reader gets what the flat map has. -/
theorem Simulates.get (h : T.Simulates s m)
    (hTop : Uncovered s depth k) : s.get T depth k = m[k]? := by
  rw [← h.content_below hTop.2]
  exact ((h.coherent.atDepth depth).of_append.fetch k).reports

theorem Simulates.get_top (h : T.Simulates s m) (k : κ) : s.get T 0 k = m[k]? := by
  rw [← h.shows k]
  exact (h.coherent.fetch k).reports

theorem Simulates.read (h : T.Simulates s m) (depth : Nat)
    (k : κ) : T.Simulates (s.step T (.read depth k)) m :=
  have hRegular : T.Regular s (.read depth k) := trivial
  h.step hRegular

theorem Simulates.flush (h : T.Simulates s m)
    (hKept : T.FlushStorable (s.layers.drop depth)) : T.Simulates (s.step T (.flush depth)) m :=
  have hRegular : T.Regular s (.flush depth) := hKept
  h.step hRegular

theorem Simulates.create (h : T.Simulates s m) (hTop : Uncovered s depth k) (a : α) :
    T.Simulates (s.step T (.create depth k true fun _ => a)) (Map.setUnless T.isPruned m k a) :=
  have hRegular : T.Regular s (.create depth k true fun _ => a) := ⟨hTop, .inl rfl⟩
  h.step hRegular

theorem Simulates.modify (h : T.Simulates s m) (hTop : Uncovered s depth k) {edit : α → α}
    (hBlind : (s.get T depth k).isSome = true ∨ T.Blind edit) :
    T.Simulates (s.step T (.modify depth k edit))
      (Map.setUnless T.isPruned m k (edit (m[k]?.getD T.empty))) := by
  rw [h.get hTop, ← h.content_below hTop.2] at hBlind
  have hRegular : T.Regular s (.modify depth k edit) := ⟨hTop, hBlind⟩
  exact h.step hRegular

theorem Simulates.addNew (h : T.Simulates s m) (hTop : Uncovered s depth k) (a : α) :
    T.Simulates (s.addNew T depth k a)
      (if m.contains k then m else Map.setUnless T.isPruned m k a) := by
  unfold CacheStack.addNew
  rw [h.get hTop, contains_eq_isSome_getElem?]
  split
  · exact h.read depth k
  · exact (h.read depth k).create (hTop.read k) a

theorem Simulates.discard (h : T.Simulates s m) (hTop : Uncovered s depth k) :
    T.Simulates (s.discard T depth k) (m.erase k) := by
  have hErase : Map.setUnless T.isPruned m k T.empty = m.erase k := if_pos T.pruned_empty
  unfold CacheStack.discard
  rw [h.get hTop]
  split
  · rw [← hErase]
    exact (h.read depth k).create (hTop.read k) T.empty
  case isFalse hNone =>
    rw [not_isSome_iff_eq_none] at hNone
    have hSame : m.erase k = m := by
      apply ext_getElem?
      intro j
      rw [getElem?_erase]
      split
      case isTrue hEq => rw [← Std.compare_eq_iff_eq.mp hEq, hNone]
      case isFalse => rfl
    rw [hSame]
    exact h.read depth k

/-- A listing of the top cache is the flat map. -/
theorem Simulates.listAll (h : T.Simulates s m) : T.listAll s.db s.layers = some m := by
  obtain ⟨m', hAll, hAt⟩ := h.coherent.listAll
  rw [hAll]
  congr 1
  apply ext_getElem?
  intro k
  rw [hAt, h.shows]

/-! ## Flushing everything -/

variable (T) in
/-- Somebody who looks a key up, or lists everything, at the top of the stack finds it. -/
def Visible (s : CacheStack κ α β) (k : κ) : Prop :=
  (s.get T 0 k).isSome = true ∧ ∃ all, T.listAll s.db s.layers = some all ∧ (all[k]?).isSome = true

theorem Simulates.visible_iff (h : T.Simulates s m) (k : κ) :
    T.Visible s k ↔ (m[k]?).isSome = true := by
  unfold Visible
  rw [h.get_top, h.listAll]
  exact ⟨fun hVisible => hVisible.1, fun hSome => ⟨hSome, m, rfl, hSome⟩⟩

/-- **Visible after a flush.**  What the database keeps in some form stays visible, also when the
database changes it. -/
theorem Simulates.visible_flush (h : T.Simulates s m)
    (hRead : ∀ b, (T.read b).isSome = true) {a : α} (ha : m[k]? = some a)
    (hKept : T.Stored (T.write a)) (depth : Nat) : T.Visible (s.step T (.flush depth)) k := by
  have hContent : (T.content (s.step T (.flush depth)).db (s.step T (.flush depth)).layers k).isSome =
      true := by
    show (T.content (T.flush s.db (s.layers.drop depth)).2
      (s.layers.take depth ++ (T.flush s.db (s.layers.drop depth)).1) k).isSome = true
    by_cases hMiss : ∀ l ∈ s.layers.take depth, l[k]? = none
    · rw [content_append_miss hMiss]
      exact (h.coherent.atDepth depth).of_append.flush_kept ((h.content_below hMiss).trans ha) hKept
    · rw [content_append_hit hMiss s.db _ (s.layers.drop depth), List.take_append_drop, h.shows, ha]
      rfl
  refine ⟨by unfold CacheStack.get; rw [live_fetch]; exact hContent, ?_⟩
  by_cases hLayers : s.layers = []
  · -- without a cache there is nothing to flush
    have hSame : s.step T (.flush depth) = s := by
      obtain ⟨layers, db⟩ := s
      subst hLayers
      simp [CacheStack.step, CacheKind.flush]
    rw [hSame, h.listAll]
    exact ⟨m, rfl, by rw [ha]; rfl⟩
  · have hLayers' : (s.step T (.flush depth)).layers ≠ [] := by
      intro hNil
      have hLength := congrArg List.length hNil
      change (s.layers.take depth ++ _).length = 0 at hLength
      rw [List.length_append, length_flush, ← List.length_append, List.take_append_drop] at hLength
      exact hLayers (List.length_eq_zero_iff.mp hLength)
    obtain ⟨all, hAll, hAt⟩ := listAll_readable hRead (s.step T (.flush depth)).db hLayers'
    exact ⟨all, hAll, by rw [hAt]; exact hContent⟩

/-- **Flush.** Flushing every cache leaves the caches empty and the flat map in the database. -/
theorem Simulates.flushAll (h : T.Simulates s m) (hRun : T.RegularRun s s.flushAll) :
    (∀ l ∈ (s.flushAll.foldl (CacheStack.step T) s).layers, l = ∅) ∧
      ∀ k : κ, ((s.flushAll.foldl (CacheStack.step T) s).db[k]?).bind T.read = m[k]? := by
  obtain ⟨hLength, hEmpty⟩ := flushed (T := T) s (Nat.le_refl _)
  have hSim := h.run hRun
  have hFlat : ∀ n, ((List.range n).map CacheOp.flush).foldl T.flatStep m = m := by
    intro n
    rw [List.foldl_map]
    exact List.foldl_fixed _
  rw [CacheStack.flushAll, hFlat] at hSim
  unfold CacheStack.flushAll
  generalize ((List.range s.layers.length).map CacheOp.flush).foldl (CacheStack.step T) s = t at *
  have hAll : ∀ l ∈ t.layers, l = ∅ := by
    intro l hl
    obtain ⟨i, hi, hGet⟩ := List.mem_iff_getElem.mp hl
    have hAt := hEmpty i (by omega)
    rw [List.getElem?_eq_getElem hi, hGet] at hAt
    exact some.inj hAt
  refine ⟨hAll, fun k => ?_⟩
  have hMiss : ∀ l ∈ t.layers, l[k]? = none := by
    intro l hl
    rw [hAll l hl]
    simp
  have hShows := hSim.shows k
  rw [← List.append_nil t.layers, content_append_miss hMiss, content] at hShows
  rw [← hShows]
  cases hk : t.db[k]? with
  | none => rfl
  | some b =>
    obtain ⟨a, hRead, hUnpruned⟩ := hSim.coherent.database hk
    rw [bind_some, hRead, live_unpruned T hUnpruned]

end CacheKind

end Electrum
