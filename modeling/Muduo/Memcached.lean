import Mathlib.Data.List.AList
import Muduo.Lib.Atomic
import Muduo.Memcached.Item

/-!
# Muduo.Memcached

The store of `examples/memcached/server/MemcacheServer.cc`: 4096 sets of items, each
with a mutex, and one counter for the cas ids.

`hash` is `boost::hash_range` of a key; nothing is assumed about it.  The ids do not
wrap around.
-/

namespace Muduo.Memcached

open Lib Function

inductive UpdatePolicy
  | kInvalid
  | kSet
  | kAdd
  | kReplace
  | kAppend
  | kPrepend
  | kCas
deriving DecidableEq, Repr

/-- `std::unordered_set<ConstItemPtr, Hash, Equal>`, by key. -/
abbrev ItemMap := AList fun _ : Key => Item

def kShards : Nat := 4096

/-- `items.insert(item)` does nothing when there is an item with this key. -/
def insertItem (items : ItemMap) (x : Item) : ItemMap :=
  if x.key ∈ items then items else AList.insert x.key x items

/-! ## `storeItem` -/

/-- The condition of the branch for the policy, `it` being what `find` found. -/
def admits (policy : UpdatePolicy) (x : Item) (it : Option Item) : Except Assert Bool :=
  match policy with
  | .kSet => .ok true
  | .kAdd => .ok it.isNone
  | .kReplace | .kAppend | .kPrepend => .ok it.isSome
  | .kCas => .ok (it.any fun y => y.cas = x.cas)
  | .kInvalid => .error .storePolicy

/-- The third item of `kAppend` and `kPrepend`: the value of `first` without its CR LF,
and then that of `second`. -/
def joinItems (x old first second : Item) (cas : Nat) : Except Assert Item := do
  let newLen := intOfSize (subSize (addSize x.valueLength old.valueLength) 2)
  let y ← Item.makeItem x.key old.flags old.rel_exptime newLen cas
  let y ← y.append (first.value.take (subSize first.valueLength 2))
  let y ← y.append (second.value.take second.valueLength)
  check .newItemNeeded (y.neededBytes = 0)
  check .newItemCRLF y.endsWithCRLF
  return y

/-- The item that goes into the set, with the id that has been drawn. -/
def newItem (policy : UpdatePolicy) (x : Item) (it : Option Item) (cas : Nat) :
    Except Assert Item :=
  match policy, it with
  | .kAppend, some old => joinItems x old old x cas
  | .kPrepend, some old => joinItems x old x old cas
  | _, _ => .ok (x.setCas cas)

/-- `g_cas` and `shards_`. -/
structure Store where
  gCas : Nat
  shards : Nat → ItemMap

variable (hash : Key → Nat)

/-- `hash() % kShards` -/
def shardOf (key : Key) : Nat := hash key % kShards

namespace Store

def create : Store := ⟨0, fun _ => ∅⟩

def find (s : Store) (key : Key) : Option Item := (s.shards (shardOf hash key)).lookup key

def setShard (s : Store) (key : Key) (items : ItemMap) : Store :=
  { s with shards := update s.shards (shardOf hash key) items }

/-- The second component is what the function returns, the third is `*exists`. -/
def storeItem (s : Store) (x : Item) (policy : UpdatePolicy) :
    Except Assert (Store × Bool × Bool) := do
  check .storeNeeded (x.neededBytes = 0)
  let it := s.find hash x.key
  if ← admits policy x it then
    let cas := s.gCas + 1
    let y ← newItem policy x it cas
    let items := (s.shards (shardOf hash x.key)).erase x.key
    return ({ s with gCas := cas }.setShard hash x.key (insertItem items y), true, it.isSome)
  else return (s, false, it.isSome)

def getItem (s : Store) (key : Key) : Option Item := s.find hash key

def deleteItem (s : Store) (key : Key) : Store × Bool :=
  (s.setShard hash key ((s.shards (shardOf hash key)).erase key), (s.find hash key).isSome)

end Store

/-! ## threads -/

/-- An update with a complete item. -/
structure Update where
  item : Item
  policy : UpdatePolicy
  key : Key
  body : List UInt8
  holds : item.Holds key body
  valid : policy ≠ .kInvalid

inductive Op
  | store (u : Update)
  | get (key : Key)
  | delete (key : Key)

def Op.key : Op → Key
  | store u => u.key
  | get key | delete key => key

/-- What is read of an item. -/
structure Entry where
  flags : UInt32
  rel_exptime : Int
  value : List UInt8
  cas : Nat
deriving DecidableEq, Repr

def Item.entry (x : Item) : Entry := ⟨x.flags, x.rel_exptime, x.value, x.cas⟩

inductive Result
  | stored (ok exists_ : Bool)
  | got (entry : Option Entry)
  | deleted (ok : Bool)
deriving DecidableEq

/-- Where a thread is.  `it` is what `find` found, and `y` the item that goes in. -/
inductive Stage
  | idle
  | calling (o : Op)
  | locked (o : Op)
  | found (u : Update) (it : Option Item)
  | made (u : Update) (it : Option Item) (y : Item)
  | erased (u : Update) (it : Option Item) (y : Item)
  | leaving (o : Op) (r : Result)
  | returning (o : Op) (r : Result)

variable {θ : Type} [DecidableEq θ]

/-- `mutex i` is the thread that holds the mutex of the shard.  `trace` and
`installed` are the history: the calls and returns, and the ids drawn from `g_cas`. -/
structure MemcacheServer (θ : Type) extends Store where
  mutex : Nat → Option θ
  stage : θ → Stage
  trace : List (Event θ Op Result)
  installed : List Nat

namespace MemcacheServer

def create : MemcacheServer θ where
  toStore := Store.create
  mutex _ := none
  stage _ := .idle
  trace := []
  installed := []

def setStage (s : MemcacheServer θ) (t : θ) (stage : Stage) : MemcacheServer θ :=
  { s with stage := update s.stage t stage }

def call (s : MemcacheServer θ) (t : θ) (o : Op) : Except Assert (MemcacheServer θ) := do
  match o with
  | .store u => check .storeNeeded (u.item.neededBytes = 0)
  | _ => pure ⟨⟩
  return { s.setStage t (.calling o) with trace := s.trace ++ [.call t o] }

/-- `MutexLockGuard lock(mutex)` waits while another thread holds the mutex. -/
def lock (s : MemcacheServer θ) (t : θ) (o : Op) : MemcacheServer θ :=
  match s.mutex (shardOf hash o.key) with
  | some _ => s
  | none => { s.setStage t (.locked o) with
      mutex := update s.mutex (shardOf hash o.key) (some t) }

/-- The set is searched.  `deleteItem` erases what it finds. -/
def search (s : MemcacheServer θ) (t : θ) : Op → Except Assert (MemcacheServer θ)
  | .store u => do
    let it := s.find hash u.item.key
    if ← admits u.policy u.item it then return s.setStage t (.found u it)
    else return s.setStage t (.leaving (.store u) (.stored false it.isSome))
  | .get key =>
    .ok (s.setStage t (.leaving (.get key) (.got ((s.find hash key).map Item.entry))))
  | .delete key =>
    let s' := s.setStage t (.leaving (.delete key) (.deleted (s.find hash key).isSome))
    .ok { s' with toStore := (s.deleteItem hash key).1 }

/-- `g_cas.incrementAndGet()`, and the item is made. -/
def increment (s : MemcacheServer θ) (t : θ) (u : Update) (it : Option Item) :
    Except Assert (MemcacheServer θ) := do
  let cas := s.gCas + 1
  let y ← newItem u.policy u.item it cas
  return { s.setStage t (.made u it y) with gCas := cas, installed := s.installed ++ [cas] }

/-- `items.erase(it)` -/
def erase (s : MemcacheServer θ) (t : θ) (u : Update) (it : Option Item) (y : Item) :
    MemcacheServer θ :=
  let items := (s.shards (shardOf hash u.item.key)).erase u.item.key
  { s.setStage t (.erased u it y) with toStore := s.setShard hash u.item.key items }

/-- `items.insert(y)` -/
def insert (s : MemcacheServer θ) (t : θ) (u : Update) (it : Option Item) (y : Item) :
    MemcacheServer θ :=
  let items := insertItem (s.shards (shardOf hash u.item.key)) y
  { s.setStage t (.leaving (.store u) (.stored true it.isSome)) with
    toStore := s.setShard hash u.item.key items }

def unlock (s : MemcacheServer θ) (t : θ) (o : Op) (r : Result) : MemcacheServer θ :=
  { s.setStage t (.returning o r) with
    mutex := update s.mutex (shardOf hash o.key) none }

inductive Label (θ : Type)
  | call (t : θ) (o : Op)
  | next (t : θ)

/-- One step: an operation is called by a thread that is in none, or a thread takes
its next step. -/
def step (s : MemcacheServer θ) : Label θ → Except Assert (MemcacheServer θ)
  | .call t o => match s.stage t with
    | .idle => s.call t o
    | _ => .ok s
  | .next t => match s.stage t with
    | .idle => .ok s
    | .calling o => .ok (s.lock hash t o)
    | .locked o => s.search hash t o
    | .found u it => s.increment t u it
    | .made u it y => .ok (s.erase hash t u it y)
    | .erased u it y => .ok (s.insert hash t u it y)
    | .leaving o r => .ok (s.unlock hash t o r)
    | .returning o r => .ok { s.setStage t .idle with trace := s.trace ++ [.ret t o r] }

end MemcacheServer

end Muduo.Memcached
