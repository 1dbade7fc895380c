import Mathlib.Data.Set.Basic
import Mathlib.Logic.Function.Basic

/-!
# Cached lookups

A lookup that remembers its answers. When what it looks up changes, answers that are kept can be stale; a set of keys
bounds where.
-/

namespace LinuxLikeOS.CachedLookup

open Function

variable {κ ν : Type}

/-- The answer that is kept, or a new one. -/
def look (find : κ → Option ν) (cache : κ → Option ν) (key : κ) : Option ν := (cache key).or (find key)

/-- The lookup keeps its answer. -/
def fill [DecidableEq κ] (find : κ → Option ν) (key : κ) (cache : κ → Option ν) : κ → Option ν :=
  update cache key (look find cache key)

/-- What is kept outside the set is what would be found. -/
def Coherent (find : κ → Option ν) (stale : Set κ) (cache : κ → Option ν) : Prop :=
  ∀ key ∉ stale, ∀ value, cache key = some value → find key = some value

section

variable {find found : κ → Option ν} {stale changed : Set κ} {cache : κ → Option ν}

theorem coherent_none : Coherent find stale fun _ => none := by
  intro key _ value kept
  cases kept

theorem Coherent.look (coherent : Coherent find stale cache) {key : κ} (fresh : key ∉ stale) :
    look find cache key = find key := by
  rw [CachedLookup.look]
  cases kept : cache key with
  | none => exact Option.none_or
  | some value => exact (Option.some_or ..).trans (coherent key fresh value kept).symm

theorem Coherent.fill [DecidableEq κ] (coherent : Coherent find stale cache) {key : κ} (fresh : key ∉ stale) :
    Coherent find stale (fill find key cache) := by
  intro other apart value kept
  rcases eq_or_ne other key with rfl | different
  · rw [CachedLookup.fill, update_self, coherent.look fresh] at kept
    exact kept
  · rw [CachedLookup.fill, update_of_ne different] at kept
    exact coherent other apart value kept

/-- A change makes stale what is kept of the keys it touches. -/
theorem Coherent.change (coherent : Coherent find stale cache) (same : ∀ key ∉ changed, found key = find key) :
    Coherent found (stale ∪ changed) cache := by
  intro key fresh value kept
  obtain ⟨fresh, apart⟩ := not_or.mp fresh
  rw [same key apart]
  exact coherent key fresh value kept

/-- Nothing is stale of which nothing is kept. -/
theorem Coherent.of_nothing (coherent : Coherent find stale cache) (nothing : ∀ key ∈ stale, cache key = none) :
    Coherent find ∅ cache := by
  intro key _ value kept
  by_cases inside : key ∈ stale
  · rw [nothing key inside] at kept
    cases kept
  · exact coherent key inside value kept

theorem fill_of_ne [DecidableEq κ] {key other : κ} (apart : other ≠ key) : fill find key cache other = cache other :=
  update_of_ne apart _ _

end

end LinuxLikeOS.CachedLookup
