import Mathlib.Logic.Relation

namespace MiniMarl.Data

/-! Marking traversals of a directed graph.

A traversal starts at some vertices, passes unmarked vertices only and marks
what it passes. `Spread` is what such a traversal guarantees about the marks
before and after it; it says nothing about the order of the visits.
-/

/-- `vertex` is reached from `first` without passing a marked vertex. -/
inductive Path (edge : α → α → Prop) (marked : α → Prop) (first : α) : α → Prop where
  | here (free : ¬marked first) : Path edge marked first first
  | next (before : Path edge marked first vertex) (link : edge vertex target) (free : ¬marked target) :
      Path edge marked first target

namespace Path

variable {edge : α → α → Prop} {marked more : α → Prop} {first second vertex : α}

theorem anti (path : Path edge more first vertex) (fewer : ∀ vertex, marked vertex → more vertex) :
    Path edge marked first vertex := by
  induction path with
  | here free => exact .here fun found => free (fewer _ found)
  | next _ link free ih => exact .next ih link fun found => free (fewer _ found)

theorem cons (path : Path edge marked second vertex) (free : ¬marked first) (link : edge first second) :
    Path edge marked first vertex := by
  induction path with
  | here last => exact .next (.here free) link last
  | next _ later last ih => exact .next ih later last

theorem eq_of_sink (path : Path edge marked first vertex) (sink : ∀ target, ¬edge first target) : vertex = first := by
  induction path with
  | here _ => rfl
  | next _ link _ ih =>
      rw [ih] at link
      exact absurd link (sink _)

end Path

structure Spread (edge : α → α → Prop) (starts : List α) (before after : α → Prop) : Prop where
  kept : ∀ vertex, before vertex → after vertex
  started : ∀ vertex ∈ starts, after vertex
  closed : ∀ vertex target, after vertex → ¬before vertex → edge vertex target → after target
  reached : ∀ vertex, after vertex → before vertex ∨ ∃ first ∈ starts, Path edge before first vertex

namespace Spread

variable {edge : α → α → Prop} {before middle after : α → Prop} {first : α} {starts : List α}

theorem nil : Spread edge [] before before where
  kept _ found := found
  started _ listed := nomatch listed
  closed _ _ found unmarked _ := absurd found unmarked
  reached _ found := .inl found

theorem cons (head : Spread edge [first] before middle) (tail : Spread edge starts middle after) :
    Spread edge (first :: starts) before after where
  kept vertex found := tail.kept vertex (head.kept vertex found)
  started vertex listed := by
    rcases List.mem_cons.mp listed with rfl | later
    · exact tail.kept _ (head.started _ List.mem_cons_self)
    · exact tail.started vertex later
  closed vertex target found unmarked link := by
    by_cases early : middle vertex
    · exact tail.kept target (head.closed vertex target early unmarked link)
    · exact tail.closed vertex target found early link
  reached vertex found := by
    rcases tail.reached vertex found with early | ⟨start, listed, path⟩
    · rcases head.reached vertex early with known | ⟨start, listed, path⟩
      · exact .inl known
      · exact .inr ⟨start, List.mem_cons.mpr (.inl (List.mem_singleton.mp listed)), path⟩
    · exact .inr ⟨start, List.mem_cons_of_mem _ listed, path.anti head.kept⟩

theorem stop (found : before first) : Spread edge [first] before before where
  kept _ known := known
  started _ listed := List.mem_singleton.mp listed ▸ found
  closed _ _ known unmarked _ := absurd known unmarked
  reached _ known := .inl known

theorem enter (unmarked : ¬before first) (successors : ∀ target, edge first target ↔ target ∈ starts)
    (marks : ∀ vertex, middle vertex ↔ before vertex ∨ vertex = first)
    (rest : Spread edge starts middle after) : Spread edge [first] before after where
  kept vertex found := rest.kept vertex ((marks vertex).mpr (.inl found))
  started vertex listed := rest.kept vertex ((marks vertex).mpr (.inr (List.mem_singleton.mp listed)))
  closed vertex target found unknown link := by
    by_cases here : vertex = first
    · exact rest.started target ((successors target).mp (here ▸ link))
    · refine rest.closed vertex target found ?_ link
      intro known
      rcases (marks vertex).mp known with known | same
      · exact unknown known
      · exact here same
  reached vertex found := by
    have fewer : ∀ vertex, before vertex → middle vertex := fun vertex known => (marks vertex).mpr (.inl known)
    rcases rest.reached vertex found with known | ⟨start, listed, path⟩
    · rcases (marks vertex).mp known with known | rfl
      · exact .inl known
      · exact .inr ⟨vertex, List.mem_singleton_self vertex, .here unmarked⟩
    · have link : edge first start := (successors start).mpr listed
      exact .inr ⟨first, List.mem_singleton_self first, (path.anti fewer).cons unmarked link⟩

/-- What a traversal marks is determined by the graph and the marks before it. -/
theorem marked_iff (spread : Spread edge [first] before after) (vertex : α) :
    after vertex ↔ before vertex ∨ Path edge before first vertex := by
  constructor
  · intro found
    refine (spread.reached vertex found).imp_right ?_
    intro reached
    obtain ⟨start, listed, path⟩ := reached
    exact List.mem_singleton.mp listed ▸ path
  · intro found
    rcases found with known | path
    · exact spread.kept vertex known
    · induction path with
      | here _ => exact spread.started first List.mem_cons_self
      | next passed link _ ih =>
          refine spread.closed _ _ ih ?_ link
          cases passed with
          | here free => exact free
          | next _ _ free => exact free

end Spread

end MiniMarl.Data
