import Electrum.Coins.History
import Electrum.Lib.WriteBack

/-!
# The cache of the coin view

`CStateViewCache` keeps the entries of transactions that passed through it over another view,
which is again a cache or the database.  `ModifyCoins` and `ModifyNewCoins` hand out an entry to
be edited, and `Flush` writes the edited ones to the view below.

The stack of caches behaves as one map, with four exceptions.  `ModifyNewCoins` marks the entry
of a transaction that is not a coinbase as fresh although the view below may have unspent
outputs under the id, spent in this cache only: when the new entry is spent too it is dropped,
and the old outputs are there again.  A write behind a cache that holds an entry is not seen
through it; an edit can read what a spent entry left in one cache and not in another; and the
database does not keep every field of an entry.

Main results:
* `coins_run` — a sequence of operations on the stack is the same sequence on one map
* `coins_spent_twice` — an output that was spent in the cache comes back
-/

namespace Electrum

/-! ## The operations -/

/-- `Cleanup`, which the destructor of `CCoinsModifier` calls. -/
def CCoins.cleaned (coins : CCoins) : CCoins := { coins with vout := cleanup coins.vout }

/-- The entries of the coin view: a lookup reports a pruned entry like any other, a loaded entry
is clean, and an entry is marked fresh when the view below has nothing unspent. -/
def coinsKind (keys : PubKeyCodec) : CacheKind CCoins (List UInt8) where
  isPruned coins := coins.vout.all (·.isNone)
  empty := .empty
  found _ := true
  loadDirty := false
  tracksFresh := true
  write coins := coins.serialize keys
  read bytes := (CCoins.unserialize keys bytes).map (·.1)
  pruned_empty := rfl
  found_unpruned _ _ := rfl

/-- Caches over the coin database. -/
abbrev CoinsStack := CacheStack UInt256 CCoins (List UInt8)

/-- What can be called on the cache at some depth; an edit is made between the calls of
`ModifyCoins` or `ModifyNewCoins` and the destructor of the modifier. -/
inductive CoinsOp where
  | accessCoins (depth : Nat) (txid : UInt256)
  | modifyCoins (depth : Nat) (txid : UInt256) (edit : CCoins → CCoins)
  | modifyNewCoins (depth : Nat) (txid : UInt256) (coinbase : Bool) (edit : CCoins → CCoins)
  | uncache (depth : Nat) (txid : UInt256)
  | flush (depth : Nat)

def CoinsOp.toCacheOp : CoinsOp → CacheOp UInt256 CCoins
  | .accessCoins depth txid => .read depth txid
  | .modifyCoins depth txid edit => .modify depth txid fun coins => (edit coins).cleaned
  | .modifyNewCoins depth txid coinbase edit =>
    -- the entry of a coinbase may overwrite an unspent one
    .create depth txid coinbase fun coins => (edit coins).cleaned
  | .uncache depth txid => .uncache depth txid
  | .flush depth => .flush depth

namespace CoinsStack

/-- `GetCoins` of the top cache. -/
def getCoins (keys : PubKeyCodec) (s : CoinsStack) (txid : UInt256) : Option CCoins :=
  ((coinsKind keys).fetch s.db txid s.layers).2

def step (keys : PubKeyCodec) (s : CoinsStack) (op : CoinsOp) : CoinsStack :=
  CacheStack.step (coinsKind keys) s op.toCacheOp

def run (keys : PubKeyCodec) (s : CoinsStack) (ops : List CoinsOp) : CoinsStack :=
  ops.foldl (step keys) s

/-- Flush every cache, the top one first. -/
def flushAll (s : CoinsStack) : List CoinsOp := (List.range s.layers.length).map .flush

/-- Empty caches over a database. -/
def start (n : Nat) (db : Map UInt256 (List UInt8)) : CoinsStack := ⟨List.replicate n ∅, db⟩

end CoinsStack

/-! ## One map -/

/-- The coins that a database holds. -/
def coinsIn (keys : PubKeyCodec) (db : Map UInt256 (List UInt8)) : Map UInt256 CCoins :=
  db.filterMap fun _ bytes => (coinsKind keys).read bytes

/-- The operation on one map that has the unspent entries only. -/
def CoinsOp.onMap (keys : PubKeyCodec) (coins : Map UInt256 CCoins) (op : CoinsOp) :
    Map UInt256 CCoins := (coinsKind keys).flatStep coins op.toCacheOp

/-- A coin database holds entries that can be read and have something unspent. -/
def CoinsDatabase (keys : PubKeyCodec) (db : Map UInt256 (List UInt8)) : Prop :=
  ∀ (txid : UInt256) (bytes : List UInt8), db[txid]? = some bytes → (coinsKind keys).Stored bytes

instance (keys : PubKeyCodec) (db : Map UInt256 (List UInt8)) : Decidable (CoinsDatabase keys db) :=
  inferInstanceAs (Decidable (∀ (txid : UInt256) (bytes : List UInt8), db[txid]? = some bytes →
    (coinsKind keys).Stored bytes))

/-- Whether an operation is one that the stack makes as one map would.  An entry is edited in a
cache above which no cache holds an entry for it.  The edit finds something unspent, or it treats
a spent entry as an empty one.
`ModifyNewCoins` is called for a coinbase or where the views below the cache have nothing unspent.
The database keeps what is written to it. -/
def CoinsOp.Regular (keys : PubKeyCodec) (s : CoinsStack) (op : CoinsOp) : Prop :=
  (coinsKind keys).Regular s op.toCacheOp

def CoinsOp.RegularRun (keys : PubKeyCodec) (s : CoinsStack) : List CoinsOp → Prop
  | [] => True
  | op :: ops => op.Regular keys s ∧ RegularRun keys (s.step keys op) ops

section Run

variable {keys : PubKeyCodec}

theorem CoinsStack.run_eq (s : CoinsStack) (ops : List CoinsOp) :
    s.run keys ops = (ops.map CoinsOp.toCacheOp).foldl (CacheStack.step (coinsKind keys)) s := by
  rw [List.foldl_map]
  rfl

theorem CoinsOp.foldl_onMap (coins : Map UInt256 CCoins) (ops : List CoinsOp) :
    ops.foldl (CoinsOp.onMap keys) coins =
      (ops.map CoinsOp.toCacheOp).foldl (coinsKind keys).flatStep coins := by
  rw [List.foldl_map]
  rfl

theorem CoinsOp.RegularRun.toCacheOp {s : CoinsStack} {ops : List CoinsOp}
    (h : CoinsOp.RegularRun keys s ops) :
    (coinsKind keys).RegularRun s (ops.map CoinsOp.toCacheOp) := by
  induction ops generalizing s with
  | nil => trivial
  | cons op ops ih => exact ⟨h.1, ih h.2⟩

theorem CoinsStack.toCacheOp_flushAll (s : CoinsStack) :
    s.flushAll.map CoinsOp.toCacheOp = CacheStack.flushAll s := by
  rw [CoinsStack.flushAll, List.map_map]
  rfl

/-- **One map.** However many caches lie over the database, after any sequence of regular
operations `GetCoins` shows what one map shows to which the same edits were made, and flushing
every cache leaves that map in the database. -/
theorem coins_run {n : Nat} {db : Map UInt256 (List UInt8)} (hDb : CoinsDatabase keys db)
    {ops : List CoinsOp} (hRun : CoinsOp.RegularRun keys (CoinsStack.start n db) ops) :
    let s := (CoinsStack.start n db).run keys ops
    let coins := ops.foldl (CoinsOp.onMap keys) (coinsIn keys db)
    (∀ txid : UInt256, (coinsKind keys).live (s.getCoins keys txid) = coins[txid]?) ∧
    (CoinsOp.RegularRun keys s s.flushAll →
      (∀ l ∈ (s.run keys s.flushAll).layers, l = ∅) ∧
      ∀ txid : UInt256,
        ((s.run keys s.flushAll).db[txid]?).bind (coinsKind keys).read = coins[txid]?) := by
  intro s coins
  have hSim : (coinsKind keys).Simulates s coins := by
    have hStart : (coinsKind keys).Simulates (CoinsStack.start n db) (coinsIn keys db) :=
      .start hDb n
    have hEnd := hStart.run hRun.toCacheOp
    rwa [← CoinsStack.run_eq, ← CoinsOp.foldl_onMap] at hEnd
  refine ⟨fun txid => ?_, fun hFlush => ?_⟩
  · rw [← hSim.shows txid]
    exact (hSim.coherent.fetch txid).reports
  · have hRegular := hFlush.toCacheOp
    rw [CoinsStack.toCacheOp_flushAll] at hRegular
    rw [CoinsStack.run_eq, CoinsStack.toCacheOp_flushAll]
    exact hSim.flushAll hRegular

/-- Spending an output of an entry without outputs leaves none. -/
theorem blind_spend (n : Nat) : (coinsKind keys).Blind fun coins => (coins.spend n).cleaned := by
  have hPruned : ∀ coins : CCoins, (coinsKind keys).isPruned coins = true →
      (coinsKind keys).isPruned (coins.spend n).cleaned = true := by
    intro coins hSpent
    rw [coinsKind, List.all_eq_true] at hSpent ⊢
    intro o ho
    rcases List.mem_or_eq_of_mem_set (CCoins.mem_cleanup (CCoins.mem_cleanup ho)) with hOld | hNew
    · exact hSpent o hOld
    · rw [hNew]
      rfl
  intro coins hSpent
  rw [CacheKind.live_pruned _ (hPruned coins hSpent), CacheKind.live_pruned _ (hPruned _ rfl)]

end Run

/-! ## Two caches and one coin -/

/-- An entry with one output, created at some height. -/
def oneOutput (nHeight : Nat) : CCoins := ⟨false, false, [some ⟨1000, [0x51]⟩], nHeight, 1⟩

/-- A database with one entry. -/
def oneCoinDb : Map UInt256 (List UInt8) :=
  (∅ : Map UInt256 (List UInt8)).insert 1 ((oneOutput 5).serialize noUncompressedKeys)

/-- Spend the coin, create another, flush the upper cache and read the new coin again. -/
def spendAndCreate : List CoinsOp :=
  [.modifyCoins 0 1 (·.spend 0), .modifyNewCoins 0 2 false fun _ => oneOutput 6, .flush 0,
    .accessCoins 0 2, .uncache 0 2]

/-- Only the new coin is left, in the caches and in the database. -/
theorem coins_run_spendAndCreate :
    let s := (CoinsStack.start 2 oneCoinDb).run noUncompressedKeys spendAndCreate
    let coins := spendAndCreate.foldl (CoinsOp.onMap noUncompressedKeys)
      (coinsIn noUncompressedKeys oneCoinDb)
    CoinsOp.RegularRun noUncompressedKeys (CoinsStack.start 2 oneCoinDb) spendAndCreate ∧
    coins.toList = [(2, oneOutput 6)] ∧
    (∀ txid : UInt256, (coinsKind noUncompressedKeys).live (s.getCoins noUncompressedKeys txid) =
      coins[txid]?) ∧
    ∀ txid : UInt256, ((s.run noUncompressedKeys s.flushAll).db[txid]?).bind
      (coinsKind noUncompressedKeys).read = coins[txid]? := by
  intro s coins
  have hRun : CoinsOp.RegularRun noUncompressedKeys (CoinsStack.start 2 oneCoinDb)
      spendAndCreate := by
    refine ⟨⟨by decide +kernel, .inr (blind_spend 0)⟩, ⟨by decide +kernel, by decide +kernel⟩,
      ?_, ?_, ?_, ?_⟩
    all_goals trivial
  have hFlush : CoinsOp.RegularRun noUncompressedKeys s s.flushAll := by
    have hLast : (coinsKind noUncompressedKeys).FlushStorable
        ((s.step noUncompressedKeys (.flush 0)).layers.drop 1) := by decide +kernel
    exact ⟨trivial, hLast, trivial⟩
  obtain ⟨hShows, hAll⟩ := coins_run (by decide +kernel) hRun
  exact ⟨hRun, by decide +kernel, hShows, (hAll hFlush).2⟩

/-- **An output comes back.** The coin in the database is spent in the cache, a transaction that
is not a coinbase is recorded under the same id while the visible entry is pruned, and it is spent
too.  One map has nothing unspent then; the cache shows the old coin, and so does the database
after a flush. -/
theorem coins_spent_twice :
    let spend : CoinsOp := .modifyCoins 0 1 (·.spend 0)
    let create : CoinsOp := .modifyNewCoins 0 1 false fun _ => oneOutput 6
    let s := CoinsStack.start 1 oneCoinDb
    CoinsDatabase noUncompressedKeys oneCoinDb ∧
    ((s.run noUncompressedKeys [spend]).getCoins noUncompressedKeys 1).all
      (coinsKind noUncompressedKeys).isPruned = true ∧
    ([spend, create, spend].foldl (CoinsOp.onMap noUncompressedKeys)
      (coinsIn noUncompressedKeys oneCoinDb))[(1 : UInt256)]? = none ∧
    (s.run noUncompressedKeys [spend, create, spend]).getCoins noUncompressedKeys 1 =
      some (oneOutput 5) ∧
    (s.run noUncompressedKeys [spend, create, spend, .flush 0]).db.toList = oneCoinDb.toList :=
  ⟨by decide +kernel, by decide +kernel, by decide +kernel, by decide +kernel, by decide +kernel⟩

end Electrum
