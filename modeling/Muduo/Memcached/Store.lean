import Muduo.Memcached.Map

/-!
# Muduo.Memcached.Store

The store of memcached under any interleaving of its threads.

An operation takes effect at one step of its thread: `search`, when it installs
nothing, and `increment` otherwise.  From then on the item that is to be installed
counts as stored, although it is put into the set only later: `view`.
-/

namespace Muduo.Memcached

open Lib Function

variable (hash : Key → Nat) {θ : Type}

/-! ## what a stage stands for -/

namespace Stage

/-- The shard whose mutex the thread holds. -/
def shard : Stage → Option Nat
  | idle | calling _ | returning _ _ => none
  | locked o | leaving o _ => some (shardOf hash o.key)
  | found u _ | made u _ _ | erased u _ _ => some (shardOf hash u.key)

/-- The item that is on its way into the set. -/
def pending (key : Key) : Stage → Option Item
  | made u _ y | erased u _ y => if u.key = key then some y else none
  | _ => none

def status : Stage → Status Op Result
  | idle => .idle
  | calling o | locked o => .called o
  | found u _ => .called (.store u)
  | made u it _ | erased u it _ => .done (.store u) (.stored true it.isSome)
  | leaving o r | returning o r => .done o r

end Stage

/-! ## the sets -/

namespace Store

variable {hash} {s : Store} {key key' : Key} {items : ItemMap} {i : Nat} {x : Item}

theorem shards_setShard_of_ne (hi : i ≠ shardOf hash key) :
    (s.setShard hash key items).shards i = s.shards i :=
  update_of_ne hi _ _

theorem find_setShard :
    (s.setShard hash key items).find hash key' =
      if shardOf hash key' = shardOf hash key then items.lookup key' else s.find hash key' := by
  unfold find setShard
  dsimp only
  rw [update_apply]
  split_ifs <;> rfl

theorem find_erase_self :
    (s.setShard hash key ((s.shards (shardOf hash key)).erase key)).find hash key = none := by
  rw [find_setShard, if_pos rfl, AList.lookup_erase]

theorem find_erase_of_ne (hne : key' ≠ key) :
    (s.setShard hash key ((s.shards (shardOf hash key)).erase key)).find hash key' =
      s.find hash key' := by
  rw [find_setShard]
  split_ifs with hi
  · rw [AList.lookup_erase_ne hne, find, hi]
  · rfl

theorem find_insert_self (hkey : x.key = key) (hnone : s.find hash key = none) :
    (s.setShard hash key (insertItem (s.shards (shardOf hash key)) x)).find hash key = some x := by
  have hnot : key ∉ s.shards (shardOf hash key) := AList.lookup_eq_none.1 hnone
  subst hkey
  rw [find_setShard, if_pos rfl, insertItem, if_neg hnot, AList.lookup_insert]

theorem find_insert_of_ne (hkey : x.key = key) (hnone : s.find hash key = none) (hne : key' ≠ key) :
    (s.setShard hash key (insertItem (s.shards (shardOf hash key)) x)).find hash key' =
      s.find hash key' := by
  have hnot : key ∉ s.shards (shardOf hash key) := AList.lookup_eq_none.1 hnone
  subst hkey
  rw [find_setShard]
  split_ifs with hi
  · rw [insertItem, if_neg hnot, AList.lookup_insert_ne hne, find, hi]
  · rfl

theorem lookup_of_erase
    (hx : ((s.setShard hash key ((s.shards (shardOf hash key)).erase key)).shards i).lookup key' =
      some x) : (s.shards i).lookup key' = some x := by
  by_cases hi : i = shardOf hash key
  · subst hi
    unfold setShard at hx
    dsimp only at hx
    rw [update_self] at hx
    have hne : key' ≠ key := by
      rintro rfl
      simp at hx
    rwa [AList.lookup_erase_ne hne] at hx
  · rwa [shards_setShard_of_ne hi] at hx

theorem lookup_of_insert {y : Item} (hy : y.key = key)
    (hx : ((s.setShard hash key (insertItem (s.shards (shardOf hash key)) y)).shards i).lookup key' =
      some x) : (s.shards i).lookup key' = some x ∨ i = shardOf hash key ∧ key' = key ∧ x = y := by
  by_cases hi : i = shardOf hash key
  · subst hi
    unfold setShard insertItem at hx
    dsimp only at hx
    rw [update_self, hy] at hx
    split_ifs at hx
    · exact .inl hx
    · by_cases hne : key' = key
      · subst hne
        rw [AList.lookup_insert] at hx
        exact .inr ⟨rfl, rfl, (Option.some.inj hx).symm⟩
      · rw [AList.lookup_insert_ne hne] at hx
        exact .inl hx
  · rw [shards_setShard_of_ne hi] at hx
    exact .inl hx

end Store

namespace MemcacheServer

/-- What a reader finds as soon as the updates behind their point are through. -/
def view (s : MemcacheServer θ) (key : Key) : Option Item :=
  ((s.mutex (shardOf hash key)).bind fun t => (s.stage t).pending key).or (s.find hash key)

/-- The map that the store is. -/
def map (s : MemcacheServer θ) : MapState :=
  ⟨fun key => (s.view hash key).map Item.entry, s.gCas⟩

variable {hash} {s s' : MemcacheServer θ} {t : θ} {key : Key}

theorem view_congr (hmutex : s'.mutex (shardOf hash key) = s.mutex (shardOf hash key))
    (hshard : s'.shards (shardOf hash key) = s.shards (shardOf hash key))
    (hstage : ∀ t, s.mutex (shardOf hash key) = some t → s'.stage t = s.stage t) :
    s'.view hash key = s.view hash key := by
  unfold view Store.find
  rw [hmutex, hshard]
  cases hm : s.mutex (shardOf hash key) with
  | none => rfl
  | some t => rw [Option.bind_some, Option.bind_some, hstage t hm]

theorem view_of_mutex (hmutex : s.mutex (shardOf hash key) = some t) :
    s.view hash key = ((s.stage t).pending key).or (s.find hash key) := by
  rw [view, hmutex, Option.bind_some]

theorem view_of_none (hmutex : s.mutex (shardOf hash key) = none) :
    s.view hash key = s.find hash key := by
  rw [view, hmutex]
  rfl

/-! ## the mutexes -/

variable (hash) in
/-- A mutex is held by the thread that is in a function of its shard. -/
def Locks (s : MemcacheServer θ) : Prop :=
  ∀ i t, s.mutex i = some t ↔ (s.stage t).shard hash = some i

theorem Locks.eq (hs : Locks hash s) {t' : θ} {i : Nat} (ht : (s.stage t).shard hash = some i)
    (ht' : (s.stage t').shard hash = some i) : t' = t :=
  Option.some.inj (((hs i t').2 ht').symm.trans ((hs i t).2 ht))

/-- While a thread holds the mutex of a key and has made no item, the set is what is
viewed. -/
theorem view_eq_find (hs : Locks hash s) (hsome : (s.stage t).shard hash = some (shardOf hash key))
    (hpending : (s.stage t).pending key = none) : s.view hash key = s.find hash key := by
  rw [view_of_mutex ((hs _ _).2 hsome), hpending, Option.none_or]

/-! ## the items -/

/-- The item may stand under the key. -/
structure Stored (s : MemcacheServer θ) (key : Key) (x : Item) : Prop where
  holds : ∃ body, x.Holds key body
  cas : x.cas ∈ s.installed

variable (hash) in
/-- What a thread knows at its stage. -/
def StageOk (s : MemcacheServer θ) : Stage → Prop
  | .found u it => it = s.find hash u.key ∧ admits u.policy u.item it = .ok true
  | .made u _ y => Stored s u.key y
  | .erased u _ y => Stored s u.key y ∧ s.find hash u.key = none
  | _ => True

theorem Stored.mono {x : Item} (h : Stored s key x) (hsub : s.installed ⊆ s'.installed) :
    Stored s' key x :=
  ⟨h.holds, hsub h.cas⟩

variable {stage : Stage}

/-- What a thread knows is about the shard that it holds. -/
theorem StageOk.frame (h : StageOk hash s stage)
    (hshard : ∀ i, stage.shard hash = some i → s'.shards i = s.shards i)
    (hsub : s.installed ⊆ s'.installed) : StageOk hash s' stage := by
  cases stage with
  | found u it =>
    have hfind : s'.find hash u.key = s.find hash u.key := by
      rw [Store.find, hshard _ rfl, Store.find]
    exact ⟨h.1.trans hfind.symm, h.2⟩
  | made u it y => exact Stored.mono h hsub
  | erased u it y =>
    have hfind : s'.find hash u.key = s.find hash u.key := by
      rw [Store.find, hshard _ rfl, Store.find]
    exact ⟨h.1.mono hsub, hfind.trans h.2⟩
  | _ => trivial

variable (hash) in
structure Items (s : MemcacheServer θ) : Prop where
  stored : ∀ {i key x}, (s.shards i).lookup key = some x → shardOf hash key = i ∧ Stored s key x
  stage : ∀ t, StageOk hash s (s.stage t)
  installed : s.installed = List.range' 1 s.gCas

theorem map_eq_of_view (hview : ∀ key, s'.view hash key = s.view hash key)
    (hcas : s'.gCas = s.gCas) : s'.map hash = s.map hash := by
  unfold map
  simp only [hview, hcas]

variable [DecidableEq θ]

theorem Locks.setStage (hs : Locks hash s) (hstage : s'.stage = update s.stage t stage)
    (hmutex : s'.mutex = s.mutex)
    (hshard : stage.shard hash = (s.stage t).shard hash) : Locks hash s' := by
  intro i t'
  rw [hmutex, hs i t', hstage]
  by_cases ht : t' = t
  · rw [ht, update_self, hshard]
  · rw [update_of_ne ht]

theorem Locks.lock (hs : Locks hash s) {i : Nat} (hfree : s.mutex i = none)
    (hnone : (s.stage t).shard hash = none) (hshard : stage.shard hash = some i)
    (hstage : s'.stage = update s.stage t stage)
    (hmutex : s'.mutex = update s.mutex i (some t)) : Locks hash s' := by
  intro j t'
  have hj := hs j t'
  have hi := hs i t'
  rw [hmutex, hstage, update_apply, update_apply]
  grind

theorem Locks.unlock (hs : Locks hash s) {i : Nat} (hsome : (s.stage t).shard hash = some i)
    (hshard : stage.shard hash = none) (hstage : s'.stage = update s.stage t stage)
    (hmutex : s'.mutex = update s.mutex i none) : Locks hash s' := by
  intro j t'
  have hj := hs j t'
  have hi : (s.stage t').shard hash = some i → t' = t := hs.eq hsome
  rw [hmutex, hstage, update_apply, update_apply]
  grind

theorem view_eq_of_shard_none (hs : Locks hash s) (hnone : (s.stage t).shard hash = none)
    (hstage : s'.stage = update s.stage t stage) (hmutex : s'.mutex = s.mutex)
    (hshards : s'.shards = s.shards) : s'.view hash key = s.view hash key := by
  refine view_congr (by rw [hmutex]) (by rw [hshards]) fun t' ht' => ?_
  have hne : t' ≠ t := by
    rintro rfl
    rw [(hs _ _).1 ht'] at hnone
    exact Option.some_ne_none _ hnone
  rw [hstage, update_of_ne hne]

theorem view_eq_ite (hs : Locks hash s) {i : Nat} (hsome : (s.stage t).shard hash = some i)
    (hstage : s'.stage = update s.stage t stage) (hmutex : s'.mutex = s.mutex)
    (hshards : ∀ j, j ≠ i → s'.shards j = s.shards j) (key : Key) :
    s'.view hash key =
      if shardOf hash key = i then (stage.pending key).or (s'.find hash key)
      else s.view hash key := by
  split_ifs with hi
  · have hheld : s'.mutex (shardOf hash key) = some t := by rw [hmutex, hi]; exact (hs i t).2 hsome
    rw [view_of_mutex hheld, hstage, update_self]
  · refine view_congr (by rw [hmutex]) (hshards _ hi) fun t' ht' => ?_
    have hne : t' ≠ t := by
      rintro rfl
      exact hi (Option.some.inj (((hs _ _).1 ht').symm.trans hsome))
    rw [hstage, update_of_ne hne]

theorem Items.step (hs : Items hash s) (hl : Locks hash s)
    (hstage : s'.stage = update s.stage t stage)
    (hshards : ∀ i, (s.stage t).shard hash ≠ some i → s'.shards i = s.shards i)
    (hsub : s.installed ⊆ s'.installed) (hinstalled : s'.installed = List.range' 1 s'.gCas)
    (hok : StageOk hash s' stage)
    (hstored : ∀ i key x, (s'.shards i).lookup key = some x → (s.shards i).lookup key = some x ∨
      shardOf hash key = i ∧ Stored s' key x) : Items hash s' where
  stored {i key x} hx := by
    obtain hx | hx := hstored i key x hx
    · exact ⟨(hs.stored hx).1, (hs.stored hx).2.mono hsub⟩
    · exact hx
  stage t' := by
    by_cases ht : t' = t
    · rw [hstage, ht, update_self]
      exact hok
    · rw [hstage, update_of_ne ht]
      refine (hs.stage t').frame (fun i hi => hshards i fun hti => ht ?_) hsub
      exact hl.eq hti hi
  installed := hinstalled

theorem Items.setStage (hs : Items hash s) (hl : Locks hash s)
    (hstage : s'.stage = update s.stage t stage) (hstore : s'.toStore = s.toStore)
    (hinstalled : s'.installed = s.installed) (hok : StageOk hash s' stage) : Items hash s' := by
  refine hs.step hl hstage (fun i _ => by rw [hstore]) (by rw [hinstalled]; exact fun _ h => h)
    (by rw [hinstalled, hs.installed, hstore]) hok fun i key x hx => .inl ?_
  rwa [hstore] at hx

/-! ## the trace -/

variable (hash) in
def Traced (s : MemcacheServer θ) : Prop :=
  ∃ h, AtomicTrace MapState.apply .empty s.trace (s.map hash) (Stage.status ∘ s.stage) h

theorem Traced.silent (hs : Traced hash s) (htrace : s'.trace = s.trace)
    (hmap : s'.map hash = s.map hash) (hstage : s'.stage = update s.stage t stage)
    (hstatus : stage.status = (s.stage t).status) : Traced hash s' := by
  obtain ⟨h, hs⟩ := hs
  refine ⟨h, ?_⟩
  rw [htrace, hmap, hstage, comp_update, hstatus]
  exact (update_eq_self t (Stage.status ∘ s.stage)).symm ▸ hs

theorem Traced.point (hs : Traced hash s) {o : Op} (htrace : s'.trace = s.trace)
    (hmap : s'.map hash = (MapState.apply o (s.map hash)).2)
    (hstage : s'.stage = update s.stage t stage) (hcalled : (s.stage t).status = .called o)
    (hstatus : stage.status = .done o (MapState.apply o (s.map hash)).1) : Traced hash s' := by
  obtain ⟨h, hs⟩ := hs
  refine ⟨h ++ [(o, (MapState.apply o (s.map hash)).1)], ?_⟩
  rw [htrace, hmap, hstage, comp_update, hstatus]
  exact hs.point hcalled

/-! ## the invariant -/

variable (hash) in
structure Inv (s : MemcacheServer θ) : Prop where
  locks : Locks hash s
  items : Items hash s
  traced : Traced hash s

theorem inv_create : Inv hash (create : MemcacheServer θ) where
  locks i t := by simp [create, Stage.shard]
  items := ⟨fun h => by simp [create, Store.create] at h, fun _ => trivial, rfl⟩
  traced := ⟨[], .start⟩

variable {o : Op} {u : Update} {it : Option Item} {y : Item} {r : Result}

theorem Inv.call (hs : Inv hash s) (hidle : s.stage t = .idle) (o : Op) :
    ∃ s', s.call t o = .ok s' ∧ Inv hash s' := by
  refine ⟨{ s.setStage t (.calling o) with trace := s.trace ++ [.call t o] }, ?_, ?_, ?_, ?_⟩
  · unfold MemcacheServer.call
    cases o with
    | store u =>
      dsimp only
      rw [check_of u.holds.neededBytes_eq]
      rfl
    | get key => rfl
    | delete key => rfl
  · exact hs.locks.setStage rfl rfl (by rw [hidle]; rfl)
  · exact hs.items.setStage hs.locks rfl rfl rfl trivial
  · obtain ⟨h, htr⟩ := hs.traced
    have hmap : map hash { s.setStage t (.calling o) with trace := s.trace ++ [.call t o] } =
        map hash s :=
      map_eq_of_view (fun key => view_eq_of_shard_none hs.locks (by rw [hidle]; rfl) rfl rfl rfl) rfl
    refine ⟨h, ?_⟩
    rw [hmap]
    dsimp only [setStage]
    rw [comp_update]
    exact htr.call (by rw [comp_apply, hidle]; rfl)

theorem Inv.lock (hs : Inv hash s) (hcalling : s.stage t = .calling o) :
    Inv hash (s.lock hash t o) := by
  unfold MemcacheServer.lock
  cases hm : s.mutex (shardOf hash o.key) with
  | some t' => exact hs
  | none =>
    dsimp only
    refine ⟨hs.locks.lock hm (by rw [hcalling]; rfl) rfl rfl rfl,
      hs.items.setStage hs.locks rfl rfl rfl trivial, hs.traced.silent rfl ?_ rfl (by rw [hcalling]; rfl)⟩
    refine map_eq_of_view (fun key => ?_) rfl
    by_cases hi : shardOf hash key = shardOf hash o.key
    · have hbefore : s.view hash key = s.find hash key := view_of_none (by rw [hi]; exact hm)
      rw [hbefore, view_of_mutex (t := t) (by simp [hi])]
      simp [setStage, Stage.pending, Store.find]
    · refine view_congr (by simp [hi]) rfl fun t' ht' => ?_
      have hne : t' ≠ t := by
        rintro rfl
        have hshard := (hs.locks _ _).1 ht'
        simp [hcalling, Stage.shard] at hshard
      simp [setStage, update_of_ne hne]

/-- A step of a thread that holds a mutex and has not made an item leaves the map as it
is when it leaves the set. -/
theorem Inv.map_eq (hs : Inv hash s) {i : Nat} (hsome : (s.stage t).shard hash = some i)
    (hpending : ∀ key, (s.stage t).pending key = none) (hpending' : ∀ key, stage.pending key = none)
    (hstage : s'.stage = update s.stage t stage) (hmutex : s'.mutex = s.mutex)
    (hstore : s'.toStore = s.toStore) : s'.map hash = s.map hash := by
  refine map_eq_of_view (fun key => ?_) (by rw [hstore])
  rw [view_eq_ite hs.locks hsome hstage hmutex (fun j _ => by rw [hstore]), hpending',
    Option.none_or, hstore]
  split_ifs with hi
  · exact (view_eq_find hs.locks (hi.symm ▸ hsome) (hpending key)).symm
  · rfl

/-- A step of a thread that holds a mutex, and changes what is viewed of one key. -/
theorem Inv.entries_step (hs : Inv hash s)
    (hsome : (s.stage t).shard hash = some (shardOf hash key))
    (hstage : s'.stage = update s.stage t stage) (hmutex : s'.mutex = s.mutex)
    (hshards : ∀ j, j ≠ shardOf hash key → s'.shards j = s.shards j) {e : Option Entry}
    (hkey : ((stage.pending key).or (s'.find hash key)).map Item.entry = e)
    (hother : ∀ key', key' ≠ key → shardOf hash key' = shardOf hash key →
      (stage.pending key').or (s'.find hash key') =
        ((s.stage t).pending key').or (s.find hash key')) :
    (s'.map hash).entries = update (s.map hash).entries key e := by
  funext key'
  simp only [map, view_eq_ite hs.locks hsome hstage hmutex hshards key', update_apply]
  by_cases hk : key' = key
  · subst hk
    rw [if_pos rfl, if_pos rfl, hkey]
  · rw [if_neg hk]
    split_ifs with hi
    · have hheld : s.mutex (shardOf hash key') = some t := (hs.locks _ _).2 (hi ▸ hsome)
      rw [hother key' hk hi, view_of_mutex hheld]
    · rfl

theorem Inv.entries_eq (hs : Inv hash s) (hlocked : s.stage t = .locked o) :
    (s.map hash).entries o.key = (s.find hash o.key).map Item.entry := by
  unfold map
  dsimp only
  rw [view_eq_find hs.locks (t := t) (by rw [hlocked]; rfl) (by rw [hlocked]; rfl)]

/-- The state behind `search` of `deleteItem`. -/
def afterDelete (hash : Key → Nat) (s : MemcacheServer θ) (t : θ) (key : Key) : MemcacheServer θ :=
  { s.setStage t (.leaving (.delete key) (.deleted (s.find hash key).isSome)) with
    toStore := (s.deleteItem hash key).1 }

theorem Inv.delete (hs : Inv hash s) (hlocked : s.stage t = .locked (.delete key)) :
    Inv hash (s.afterDelete hash t key) := by
  have hsome : (s.stage t).shard hash = some (shardOf hash key) := by rw [hlocked]; rfl
  have hentries := hs.entries_eq hlocked
  rw [Op.key] at hentries
  have hstage : (s.afterDelete hash t key).stage = update s.stage t
      (.leaving (.delete key) (.deleted (s.find hash key).isSome)) := rfl
  have hmap : ((s.afterDelete hash t key).map hash).entries =
      update (s.map hash).entries key none := by
    refine hs.entries_step hsome hstage rfl (fun j hj => Store.shards_setShard_of_ne hj) ?_
      fun key' hne _ => ?_
    · simp [Stage.pending, afterDelete, Store.deleteItem, Store.find_erase_self]
    · simp [hlocked, Stage.pending, afterDelete, Store.deleteItem, Store.find_erase_of_ne hne]
  refine ⟨hs.locks.setStage rfl rfl hsome.symm, ?_,
    hs.traced.point (o := .delete key) rfl (MapState.ext hmap rfl) rfl (by rw [hlocked]; rfl) ?_⟩
  · refine hs.items.step hs.locks rfl (fun i hi => ?_) (fun _ h => h) hs.items.installed trivial
      fun i key' x hx => .inl (Store.lookup_of_erase hx)
    exact Store.shards_setShard_of_ne fun h => hi (h ▸ hsome)
  · simp only [MapState.apply, hentries, Stage.status, Option.isSome_map]

/-- The set is searched: an operation that installs nothing has its point here. -/
theorem Inv.search (hs : Inv hash s) (hlocked : s.stage t = .locked o) :
    ∃ s', s.search hash t o = .ok s' ∧ Inv hash s' := by
  have hsome : (s.stage t).shard hash = some (shardOf hash o.key) := by rw [hlocked]; rfl
  have hpending : ∀ key, (s.stage t).pending key = none := by intro key; rw [hlocked]; rfl
  have hentries := hs.entries_eq hlocked
  have hcalled : (s.stage t).status = .called o := by rw [hlocked]; rfl
  cases o with
  | store u =>
    rw [Op.key] at hentries hsome
    have hadmits := admits_eq hentries
    unfold MemcacheServer.search
    dsimp only
    rw [u.holds.key_eq, hadmits, ok_bind]
    cases hu : (s.map hash).update u with
    | some e =>
      refine ⟨_, rfl, hs.locks.setStage rfl rfl hsome.symm,
        hs.items.setStage hs.locks rfl rfl rfl ⟨rfl, by rw [hadmits, hu]; rfl⟩,
        hs.traced.silent rfl ?_ rfl hcalled.symm⟩
      exact hs.map_eq hsome hpending (fun _ => rfl) rfl rfl rfl
    | none =>
      refine ⟨_, rfl, hs.locks.setStage rfl rfl hsome.symm,
        hs.items.setStage hs.locks rfl rfl rfl trivial,
        hs.traced.point (o := .store u) rfl ?_ rfl hcalled ?_⟩
      · simp only [MapState.apply, hu]
        exact hs.map_eq hsome hpending (fun _ => rfl) rfl rfl rfl
      · simp only [MapState.apply, hu, hentries, Stage.status, Option.isSome_map]
  | get key =>
    refine ⟨_, rfl, hs.locks.setStage rfl rfl hsome.symm,
      hs.items.setStage hs.locks rfl rfl rfl trivial,
      hs.traced.point (o := .get key) rfl ?_ rfl hcalled ?_⟩
    · exact hs.map_eq hsome hpending (fun _ => rfl) rfl rfl rfl
    · rw [Op.key] at hentries
      simp only [MapState.apply, hentries, Stage.status]
  | delete key => exact ⟨_, rfl, hs.delete hlocked⟩

/-- The id is drawn and the item is made: the point of an update that succeeds. -/
theorem Inv.increment (hs : Inv hash s) (hfound : s.stage t = .found u it) (hfits : u.fits it) :
    ∃ s', s.increment t u it = .ok s' ∧ Inv hash s' := by
  have hsome : (s.stage t).shard hash = some (shardOf hash u.key) := by rw [hfound]; rfl
  have hpending : ∀ key, (s.stage t).pending key = none := by intro key; rw [hfound]; rfl
  obtain ⟨hit, hadmits⟩ : StageOk hash s (.found u it) := hfound ▸ hs.items.stage t
  have hentries : (s.map hash).entries u.key = it.map Item.entry := by
    simp only [map]
    rw [view_eq_find hs.locks hsome (hpending _), hit]
  rw [admits_eq hentries, Except.ok.injEq, Option.isSome_iff_exists] at hadmits
  obtain ⟨e, hu⟩ := hadmits
  have hold : ∀ x ∈ it, ∃ body, x.Holds u.key body := by
    intro x hx
    exact (hs.items.stored (hit ▸ hx)).2.holds
  obtain ⟨y, hnew, hholds, hentry⟩ := newItem_spec hentries hold hu hfits
  have hcas : y.cas = s.gCas + 1 := (congrArg Entry.cas hentry).trans (MapState.cas_of_update hu)
  obtain ⟨s', hs'⟩ : ∃ s', s' = { s.setStage t (.made u it y) with
      gCas := s.gCas + 1, installed := s.installed ++ [s.gCas + 1] } := ⟨_, rfl⟩
  have hstage : s'.stage = update s.stage t (.made u it y) := by rw [hs']; rfl
  have hmutex : s'.mutex = s.mutex := by rw [hs']; rfl
  have hshards : s'.shards = s.shards := by rw [hs']; rfl
  have hinstalled : s'.installed = s.installed ++ [s.gCas + 1] := by rw [hs']
  have hgCas : s'.gCas = s.gCas + 1 := by rw [hs']
  have htrace : s'.trace = s.trace := by rw [hs']; rfl
  refine ⟨s', ?_, hs.locks.setStage hstage hmutex hsome.symm, ?_,
    hs.traced.point (o := .store u) htrace ?_ hstage (by rw [hfound]; rfl) ?_⟩
  · unfold MemcacheServer.increment
    dsimp only
    rw [show newItem u.policy u.item it (s.gCas + 1) = .ok y from hnew, hs']
    rfl
  · refine hs.items.step hs.locks hstage (fun i _ => by rw [hshards]) ?_ ?_ ⟨hholds, ?_⟩
      fun i key' x hx => .inl (hshards ▸ hx)
    · rw [hinstalled]
      exact List.subset_append_left _ _
    · rw [hinstalled, hgCas, hs.items.installed, List.range'_concat, Nat.one_mul, Nat.add_comm 1]
    · simp [hinstalled, hcas]
  · have hmap : (s'.map hash).entries = update (s.map hash).entries u.key (some e) := by
      refine hs.entries_step hsome hstage hmutex (fun j _ => by rw [hshards]) ?_ fun key' hne _ => ?_
      · simp [Stage.pending, hentry]
      · rw [hpending key']
        simp [Stage.pending, hne.symm, Store.find, hshards]
    simp only [MapState.apply, hu]
    exact MapState.ext hmap hgCas
  · simp only [MapState.apply, hu, hentries, Stage.status, Option.isSome_map]

theorem Inv.erase (hs : Inv hash s) (hmade : s.stage t = .made u it y) :
    Inv hash (s.erase hash t u it y) := by
  have hsome : (s.stage t).shard hash = some (shardOf hash u.key) := by rw [hmade]; rfl
  have hy : Stored s u.key y := by
    have := hs.items.stage t
    rwa [hmade] at this
  have hstore : (s.erase hash t u it y).toStore =
      s.setShard hash u.key ((s.shards (shardOf hash u.key)).erase u.key) := by
    simp only [MemcacheServer.erase, u.holds.key_eq]
  have hstage : (s.erase hash t u it y).stage = update s.stage t (.erased u it y) := rfl
  have hmap : ((s.erase hash t u it y).map hash).entries = (s.map hash).entries := by
    refine (hs.entries_step hsome hstage rfl (fun j hj => ?_) ?_ fun key' hne _ => ?_).trans
      (update_eq_self u.key _)
    · rw [hstore, Store.shards_setShard_of_ne hj]
    · simp only [map]
      rw [view_of_mutex ((hs.locks _ _).2 hsome), hmade]
      simp [Stage.pending]
    · rw [hstore]
      simp [hmade, Stage.pending, hne.symm, Store.find_erase_of_ne hne]
  refine ⟨hs.locks.setStage rfl rfl hsome.symm, ?_,
    hs.traced.silent rfl (MapState.ext hmap rfl) rfl (by rw [hmade]; rfl)⟩
  refine hs.items.step hs.locks rfl (fun i hi => ?_) (fun _ h => h) hs.items.installed
    ⟨⟨hy.holds, hy.cas⟩, ?_⟩ fun i key' x hx => .inl ?_
  · have hne : i ≠ shardOf hash u.key := fun h => hi (h ▸ hsome)
    rw [hstore, Store.shards_setShard_of_ne hne]
  · rw [hstore, Store.find_erase_self]
  · rw [hstore] at hx
    exact Store.lookup_of_erase hx

theorem Inv.insert (hs : Inv hash s) (herased : s.stage t = .erased u it y) :
    Inv hash (s.insert hash t u it y) := by
  have hsome : (s.stage t).shard hash = some (shardOf hash u.key) := by rw [herased]; rfl
  obtain ⟨hy, hnone⟩ : StageOk hash s (.erased u it y) := herased ▸ hs.items.stage t
  obtain ⟨body, hbody⟩ := hy.holds
  have hstore : (s.insert hash t u it y).toStore =
      s.setShard hash u.key (insertItem (s.shards (shardOf hash u.key)) y) := by
    simp only [MemcacheServer.insert, u.holds.key_eq]
  have hstage : (s.insert hash t u it y).stage = update s.stage t
      (.leaving (.store u) (.stored true it.isSome)) := rfl
  have hmap : ((s.insert hash t u it y).map hash).entries = (s.map hash).entries := by
    refine (hs.entries_step hsome hstage rfl (fun j hj => ?_) ?_ fun key' hne _ => ?_).trans
      (update_eq_self u.key _)
    · rw [hstore, Store.shards_setShard_of_ne hj]
    · simp only [map]
      rw [view_of_mutex ((hs.locks _ _).2 hsome), herased, hstore]
      simp [Stage.pending, Store.find_insert_self hbody.key_eq hnone]
    · rw [hstore]
      simp [herased, Stage.pending, hne.symm, Store.find_insert_of_ne hbody.key_eq hnone hne]
  refine ⟨hs.locks.setStage rfl rfl hsome.symm, ?_,
    hs.traced.silent rfl (MapState.ext hmap rfl) rfl (by rw [herased]; rfl)⟩
  refine hs.items.step hs.locks rfl (fun i hi => ?_) (fun _ h => h) hs.items.installed trivial
    fun i key' x hx => ?_
  · have hne : i ≠ shardOf hash u.key := fun h => hi (h ▸ hsome)
    rw [hstore, Store.shards_setShard_of_ne hne]
  · rw [hstore] at hx
    obtain hx | ⟨rfl, rfl, rfl⟩ := Store.lookup_of_insert hbody.key_eq hx
    · exact .inl hx
    · exact .inr ⟨rfl, hy.holds, hy.cas⟩

theorem Inv.unlock (hs : Inv hash s) (hleaving : s.stage t = .leaving o r) :
    Inv hash (s.unlock hash t o r) := by
  have hsome : (s.stage t).shard hash = some (shardOf hash o.key) := by rw [hleaving]; rfl
  refine ⟨hs.locks.unlock hsome rfl rfl rfl, hs.items.setStage hs.locks rfl rfl rfl trivial,
    hs.traced.silent rfl (map_eq_of_view (fun key => ?_) rfl) rfl (by rw [hleaving]; rfl)⟩
  by_cases hi : shardOf hash key = shardOf hash o.key
  · have hbefore : s.view hash key = s.find hash key :=
      view_eq_find hs.locks (hi ▸ hsome) (by rw [hleaving]; rfl)
    rw [hbefore, view_of_none (by simp [MemcacheServer.unlock, hi])]
    rfl
  · refine view_congr (by simp [MemcacheServer.unlock, hi]) rfl fun t' ht' => ?_
    have hne : t' ≠ t := by
      rintro rfl
      exact hi (Option.some.inj (((hs.locks _ _).1 ht').symm.trans hsome))
    exact update_of_ne hne _ _

theorem Inv.ret (hs : Inv hash s) (hreturning : s.stage t = .returning o r) :
    Inv hash { s.setStage t .idle with trace := s.trace ++ [.ret t o r] } := by
  have hnone : (s.stage t).shard hash = none := by rw [hreturning]; rfl
  refine ⟨hs.locks.setStage rfl rfl hnone.symm, hs.items.setStage hs.locks rfl rfl rfl trivial, ?_⟩
  obtain ⟨h, htr⟩ := hs.traced
  have hmap : map hash { s.setStage t .idle with trace := s.trace ++ [.ret t o r] } = map hash s :=
    map_eq_of_view (fun key => view_eq_of_shard_none hs.locks hnone rfl rfl rfl) rfl
  refine ⟨h, ?_⟩
  rw [hmap]
  dsimp only [setStage]
  rw [comp_update]
  exact htr.ret (by rw [comp_apply, hreturning]; rfl)

/-- The values stay short: what a thread is about to append or prepend to fits. -/
def Small (s : MemcacheServer θ) : Label θ → Bool
  | .call _ _ => true
  | .next t => match s.stage t with
    | .found u it => u.fits it
    | _ => true

theorem Inv.step (hs : Inv hash s) {l : Label θ} (hsmall : Small s l) :
    ∃ s', step hash s l = .ok s' ∧ Inv hash s' := by
  cases l with
  | call t o =>
    simp only [MemcacheServer.step]
    cases hstage : s.stage t with
    | idle => exact hs.call hstage o
    | _ => exact ⟨s, rfl, hs⟩
  | next t =>
    simp only [MemcacheServer.step]
    cases hstage : s.stage t with
    | idle => exact ⟨s, rfl, hs⟩
    | calling o => exact ⟨_, rfl, hs.lock hstage⟩
    | locked o => exact hs.search hstage
    | found u it =>
      simp only [Small, hstage] at hsmall
      exact hs.increment hstage hsmall
    | made u it y => exact ⟨_, rfl, hs.erase hstage⟩
    | erased u it y => exact ⟨_, rfl, hs.insert hstage⟩
    | leaving o r => exact ⟨_, rfl, hs.unlock hstage⟩
    | returning o r => exact ⟨_, rfl, hs.ret hstage⟩

variable (hash) in
/-- The store is a linearizable map with sound cas. -/
structure Correct (s : MemcacheServer θ) : Prop where
  /-- The calls and returns are those of an atomic map, which is now `s.map`. -/
  atomic : ∃ h, AtomicTrace MapState.apply .empty s.trace (s.map hash) (Stage.status ∘ s.stage) h
  /-- When no operation is going on, the map is what the sets hold. -/
  quiet : (∀ t, s.stage t = .idle) →
    ∀ key, (s.map hash).entries key = (s.find hash key).map Item.entry
  one_per_key : ∀ i, ((s.shards i).entries.map fun e => e.2.key).Nodup
  crlf : ∀ i, ∀ e ∈ (s.shards i).entries, e.2.endsWithCRLF
  /-- The ids, in the order in which they are installed. -/
  increasing : s.installed.Pairwise (· < ·)
  cas_installed : ∀ i, ∀ e ∈ (s.shards i).entries, e.2.cas ∈ s.installed
  handed_out : ∀ x ∈ returns s.trace, ∀ c, MapState.handedOut x = some c → c ∈ s.installed
  cas_once : ∀ c, (returns s.trace).countP (MapState.casSucceeds c) ≤ 1

omit [DecidableEq θ] in
theorem Items.of_mem (hs : Items hash s) {i : Nat} {e : Σ _ : Key, Item}
    (he : e ∈ (s.shards i).entries) : Stored s e.1 e.2 :=
  (hs.stored (AList.mem_lookup_iff.2 he)).2

theorem Inv.correct (hs : Inv hash s) : Correct hash s := by
  obtain ⟨h, htr⟩ := hs.traced
  have hids := MapState.cas_once htr
  refine ⟨⟨h, htr⟩, fun hidle key => ?_, fun i => ?_, fun i e he => ?_, ?_, fun i e he => ?_,
    fun x hx c hc => ?_, fun c => ?_⟩
  · have hfree : s.mutex (shardOf hash key) = none := by
      refine Option.eq_none_iff_forall_not_mem.2 fun t ht => ?_
      have hshard := (hs.locks _ t).1 ht
      simp [hidle t, Stage.shard] at hshard
    simp only [map, view_of_none hfree]
  · have hkeys : ((s.shards i).entries.map fun e => e.2.key) = (s.shards i).keys := by
      refine List.map_congr_left fun e he => ?_
      obtain ⟨body, hbody⟩ := (hs.items.of_mem he).holds
      exact hbody.key_eq
    rw [hkeys]
    exact (s.shards i).nodupKeys
  · obtain ⟨body, hbody⟩ := (hs.items.of_mem he).holds
    exact hbody.endsWithCRLF
  · rw [hs.items.installed]
    exact List.pairwise_lt_range'
  · exact (hs.items.of_mem he).cas
  · obtain ⟨hpos, hle⟩ := hids.handed (htr.result_mem hx) hc
    have hcas : (s.map hash).cas = s.gCas := rfl
    rw [hs.items.installed, List.mem_range'_1]
    omega
  · have hused := hids.used c
    have hret := htr.count_ret_le (MapState.casSucceeds c)
    omega

/-- **The store is linearizable.** In every interleaving of `storeItem`, `getItem` and
`deleteItem` by any number of threads, as long as the values stay short, no assertion
fails and the store is an atomic map, each id is above those before it, and of the cas
updates that carry one id at most one succeeds. -/
theorem linearizable (hash : Key → Nat) (ls : List (Label θ))
    (h : Meets (step hash) (fun s l => Small s l) create ls) :
    ∃ s, run (step hash) create ls = .ok s ∧ Correct hash s := by
  obtain ⟨s, hrun, hs⟩ := exists_run (fun _ _ hs hl => hs.step hl) inv_create h
  exact ⟨s, hrun, hs.correct⟩

/-- `set k` with the value `hi`, by a session. -/
def setHi (policy : UpdatePolicy) (cas : Nat) (hvalid : policy ≠ .kInvalid) : Update where
  item := ⟨1, 0, 0, 4, cas, [107, 104, 105, 13, 10]⟩
  policy
  key := [107]
  body := [104, 105]
  holds := ⟨rfl, rfl, rfl, by decide, by decide⟩
  valid := hvalid

/-- One thread sets and appends, the other swaps in between. -/
theorem linearizable_two_threads :
    ∃ s, run (step List.length) (create : MemcacheServer Bool)
      [.call true (.store (setHi .kSet 0 nofun)), .call false (.store (setHi .kCas 1 nofun)),
        .next true, .next true, .next true, .next false, .next true, .next true, .next true,
        .next true, .next false, .next false, .next false, .next false, .next false, .next false,
        .next false, .call true (.store (setHi .kAppend 0 nofun)), .next true, .next true,
        .next true] = .ok s ∧ Correct List.length s :=
  linearizable _ _ (by decide +kernel)

end MemcacheServer

end Muduo.Memcached
