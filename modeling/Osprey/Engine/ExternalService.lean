/-
`ExternalService` and its accessor, run by one greenlet alone: a request
completes before the next call is made, so every cached `AsyncResult` holds
a value or an exception.
-/
import Osprey.Engine.Basic
import Osprey.Lib.Dict

namespace Osprey.ExternalService

variable {κ ν : Type*} [DecidableEq κ]

/-- A service over a store that does not change: what a read of a key gives,
how long a read is cached, and the value later readers of a failed read get
instead of the exception (`count_error_once`; `none` when it is off). -/
structure Service (κ ν : Type*) where
  getFromService : κ → Except Exc ν
  cacheTtl : Option TimeDelta := none
  noneOnError : Option ν := none

structure CacheEntry (ν : Type*) where
  result : Except Exc ν
  expiration : Option Time

abbrev Cache (κ ν : Type*) := Lib.Dict κ (CacheEntry ν)

def isPastCacheExpiration (cacheExpiration : Option Time) (now : Time) : Bool :=
  match cacheExpiration with
  | none => false
  | some e => now > e

def getCacheExpirationDatetime (ttl : Option TimeDelta) (now : Time) : Option Time := ttl.map (now + ·)

/-- The request `get` makes for a key that is not cached, or no longer. -/
def fetch (svc : Service κ ν) (now : Time) (cache : Cache κ ν) (key : κ) : Except Exc ν × Cache κ ν :=
  let expiration := getCacheExpirationDatetime svc.cacheTtl now
  match svc.getFromService key with
  | .ok v => (.ok v, cache.set key ⟨.ok v, expiration⟩)
  | .error e =>
    let cached := match svc.noneOnError with
      | some v => .ok v
      | none => .error e
    (.error e, cache.set key ⟨cached, expiration⟩)

def get (svc : Service κ ν) (now : Time) (cache : Cache κ ν) (key : κ) : Except Exc ν × Cache κ ν :=
  match cache.get? key with
  | none => fetch svc now cache key
  | some entry =>
    if isPastCacheExpiration entry.expiration now then fetch svc now cache key
    else (entry.result, cache)

theorem fetch_get? {svc} (h : svc.noneOnError = none) (now : Time) (cache : Cache κ ν) (key : κ) :
    (fetch svc now cache key).1 = svc.getFromService key ∧
      (fetch svc now cache key).2.get? key
        = some ⟨svc.getFromService key, getCacheExpirationDatetime svc.cacheTtl now⟩ := by
  unfold fetch
  cases svc.getFromService key <;> simp [h]

/-- **Reading a key again at the same time gives the same answer**, also when
the cached entry is already past its expiration, since the store is the same. -/
theorem get_again {svc} (h : svc.noneOnError = none) (now : Time) (cache : Cache κ ν) (key : κ) :
    (get svc now (get svc now cache key).2 key).1 = (get svc now cache key).1 := by
  have refetch : (get svc now (fetch svc now cache key).2 key).1 = (fetch svc now cache key).1 := by
    obtain ⟨hres, hget⟩ := fetch_get? h now cache key
    rw [get, hget, hres]
    dsimp only
    split
    · exact (fetch_get? h now _ key).1
    · rfl
  cases hc : cache.get? key with
  | none =>
    have hg : get svc now cache key = fetch svc now cache key := by rw [get, hc]
    rw [hg, refetch]
  | some entry =>
    by_cases hp : isPastCacheExpiration entry.expiration now
    · have hg : get svc now cache key = fetch svc now cache key := by rw [get, hc]; simp [hp]
      rw [hg, refetch]
    · have hg : get svc now cache key = (entry.result, cache) := by rw [get, hc]; simp [hp]
      rw [hg, hg]

end Osprey.ExternalService
