import CodeGraph.VectorStore
import Mathlib.Data.List.Sort
import Mathlib.Data.Prod.Lex
import Mathlib.Data.String.Basic
import Mathlib.Order.OrderDual

set_option autoImplicit false

namespace CodeGraph

namespace Score

open Float.Model (UnpackedFloat)

/-- Where a number stands among all numbers: its kind, and among the finite numbers of one sign its
exponent and mantissa. Both zeros stand in one place. -/
def level : UnpackedFloat → ℤ ×ₗ ℤ ×ₗ ℤ
  | .infinity .negative => toLex (-2, toLex (0, 0))
  | .finite .negative mantissa exponent _ => toLex (-1, toLex (-exponent, -mantissa))
  | .zero _ | .notANumber => toLex (0, toLex (0, 0))
  | .finite .positive mantissa exponent _ => toLex (1, toLex (exponent, mantissa))
  | .infinity .positive => toLex (2, toLex (0, 0))

theorem compares_magnitude (e f : ℤ) (m n : ℕ) :
    ((compare e f).then (compare m n)).Compares (toLex (e, (m : ℤ))) (toLex (f, (n : ℤ))) := by
  rcases lt_trichotomy e f with less | rfl | more
  · simp [compare_lt_iff_lt.mpr less, Prod.Lex.toLex_lt_toLex, less]
  · rcases lt_trichotomy m n with less | rfl | more
    · simp [compare_lt_iff_lt.mpr less, Prod.Lex.toLex_lt_toLex, less]
    · simp
    · simp [compare_gt_iff_gt.mpr more, Prod.Lex.toLex_lt_toLex, more]
  · simp [compare_gt_iff_gt.mpr more, Prod.Lex.toLex_lt_toLex, more]

theorem compares_negated {order : Ordering} {e f m n : ℤ}
    (compares : order.Compares (toLex (e, m)) (toLex (f, n))) :
    order.Compares (toLex (-f, -n)) (toLex (-e, -m)) := by
  cases order <;>
    simp only [Ordering.compares_lt, Ordering.compares_eq, Ordering.compares_gt, gt_iff_lt,
      Prod.Lex.toLex_lt_toLex, toLex_inj, Prod.mk.injEq] at compares ⊢ <;>
    omega

theorem compares_in_kind {order : Ordering} (kind : ℤ) {x y : ℤ ×ₗ ℤ}
    (compares : order.Compares x y) : order.Compares (toLex (kind, x)) (toLex (kind, y)) := by
  cases order <;> simpa [Prod.Lex.toLex_lt_toLex] using compares

theorem compares_kinds {order : Ordering} {kind kind' : ℤ} (apart : order ≠ .eq)
    (compared : compare kind kind' = order) (x y : ℤ ×ₗ ℤ) :
    order.Compares (toLex (kind, x)) (toLex (kind', y)) := by
  cases order with
  | lt => exact Prod.Lex.toLex_lt_toLex.mpr (.inl (compare_lt_iff_lt.mp compared))
  | eq => exact absurd rfl apart
  | gt => exact Prod.Lex.toLex_lt_toLex.mpr (.inl (compare_gt_iff_gt.mp compared))

theorem compares_level {a b : UnpackedFloat} (number : a.isNaN = false)
    (number' : b.isNaN = false) :
    ∃ order, a.compare b = some order ∧ order.Compares (level a) (level b) := by
  -- Kinds decide unless both are finite and of one sign; below zero the order turns round.
  cases a with
  | notANumber => cases number
  | infinity s =>
      cases b with
      | notANumber => cases number'
      | infinity t =>
          cases s <;> cases t
          case negative.negative | positive.positive => exact ⟨_, rfl, rfl⟩
          all_goals exact ⟨_, rfl, compares_kinds (by decide) (by decide) _ _⟩
      | zero t => cases s <;> exact ⟨_, rfl, compares_kinds (by decide) (by decide) _ _⟩
      | finite t n f _ =>
          cases s <;> cases t <;> exact ⟨_, rfl, compares_kinds (by decide) (by decide) _ _⟩
  | zero s =>
      cases b with
      | notANumber => cases number'
      | infinity t => cases t <;> exact ⟨_, rfl, compares_kinds (by decide) (by decide) _ _⟩
      | zero t => exact ⟨_, rfl, rfl⟩
      | finite t n f _ => cases t <;> exact ⟨_, rfl, compares_kinds (by decide) (by decide) _ _⟩
  | finite s m e _ =>
      cases b with
      | notANumber => cases number'
      | infinity t =>
          cases s <;> cases t <;> exact ⟨_, rfl, compares_kinds (by decide) (by decide) _ _⟩
      | zero t => cases s <;> exact ⟨_, rfl, compares_kinds (by decide) (by decide) _ _⟩
      | finite t n f _ =>
          have magnitude := compares_magnitude e f m n
          cases s <;> cases t
          case negative.negative =>
            refine ⟨_, rfl, Ordering.compares_swap.mpr (compares_in_kind _ ?_)⟩
            exact compares_negated magnitude
          case positive.positive => exact ⟨_, rfl, compares_in_kind _ magnitude⟩
          all_goals exact ⟨_, rfl, compares_kinds (by decide) (by decide) _ _⟩

def rank (score : Float32) : ℤ ×ₗ ℤ ×ₗ ℤ :=
  level score.toModel.unpack

variable {a b : Float32}

theorem compares_rank (number : a.isNaN = false) (number' : b.isNaN = false) :
    ∃ order, a.toModel.unpack.compare b.toModel.unpack = some order ∧
      order.Compares (rank a) (rank b) :=
  compares_level number number'

theorem lt_iff_rank (number : a.isNaN = false) (number' : b.isNaN = false) :
    a < b ↔ rank a < rank b := by
  obtain ⟨order, compared, compares⟩ := compares_rank number number'
  have less : a < b ↔ a.toModel.unpack.compare b.toModel.unpack = some .lt :=
    decide_eq_true_iff.trans beq_iff_eq
  rw [less, compared, Option.some_inj, compares.eq_lt]

theorem beq_iff_rank (number : a.isNaN = false) (number' : b.isNaN = false) :
    (a == b) = true ↔ rank a = rank b := by
  obtain ⟨order, compared, compares⟩ := compares_rank number number'
  have same : (a == b) = (a.toModel.unpack.compare b.toModel.unpack == some .eq) := rfl
  rw [same, beq_iff_eq, compared, Option.some_inj, compares.eq_eq]

end Score

namespace Hit

def Precedes (a b : Hit Float32) : Prop :=
  b.score < a.score ∨ (a.score == b.score) = true ∧ a.id < b.id

def standing (hit : Hit Float32) : (ℤ ×ₗ ℤ ×ₗ ℤ)ᵒᵈ ×ₗ String :=
  toLex (OrderDual.toDual (Score.rank hit.score), hit.id)

def ranks (a b : Hit Float32) : Bool :=
  le (fun a b => decide (a < b)) a b

variable {a b : Hit Float32} {hits hits' : List (Hit Float32)} {limit : Nat}

theorem precedes_iff (number : a.score.isNaN = false) (number' : b.score.isNaN = false) :
    a.Precedes b ↔ a.standing < b.standing := by
  rw [Precedes, Score.lt_iff_rank number' number, Score.beq_iff_rank number number', standing,
    standing, Prod.Lex.toLex_lt_toLex, OrderDual.toDual_lt_toDual, OrderDual.toDual_inj]

theorem ranks_iff (number : a.score.isNaN = false) (number' : b.score.isNaN = false) :
    ranks a b = true ↔ a.standing ≤ b.standing := by
  rw [ranks, le, standing, standing, Prod.Lex.toLex_le_toLex, OrderDual.toDual_lt_toDual,
    OrderDual.toDual_inj]
  simp only [decide_eq_true_eq, Score.lt_iff_rank number number', Score.lt_iff_rank number' number]
  rcases lt_trichotomy (Score.rank a.score) (Score.rank b.score) with less | same | more
  · simp [less, less.not_gt, less.ne]
  · simp [same]
  · simp [more]

structure Ranked (hits : List (Hit Float32)) : Prop where
  numbers : ∀ hit ∈ hits, hit.score.isNaN = false
  ids : (hits.map Hit.id).Nodup

theorem Ranked.perm (ranked : Ranked hits) (perm : hits.Perm hits') : Ranked hits' :=
  ⟨fun hit inside => ranked.numbers hit (perm.mem_iff.mpr inside),
    (perm.map Hit.id).nodup_iff.mp ranked.ids⟩

/-- The comparison is an order of such hits only, so the sort goes through one of all hits. -/
theorem Ranked.mergeSort_eq (ranked : Ranked hits) :
    hits.mergeSort ranks =
      hits.mergeSort (fun a b : Hit Float32 => decide (a.standing ≤ b.standing)) := by
  have alike : (hits.mergeSort ranks).map (fun hit => hit) =
      (hits.map (fun hit => hit)).mergeSort (fun a b => decide (a.standing ≤ b.standing)) := by
    apply List.map_mergeSort
    intro a first b second
    rw [Bool.eq_iff_iff, ranks_iff (ranked.numbers a first) (ranked.numbers b second),
      decide_eq_true_eq]
  simpa using alike

theorem Ranked.pairwise (ranked : Ranked hits) :
    (hits.mergeSort ranks).Pairwise (fun a b => a.standing < b.standing) := by
  have sorted : (hits.mergeSort ranks).Pairwise
      (fun a b => decide (a.standing ≤ b.standing) = true) := by
    rw [ranked.mergeSort_eq]
    apply List.pairwise_mergeSort
    · intro a b c first second
      exact decide_eq_true (le_trans (of_decide_eq_true first) (of_decide_eq_true second))
    · intro a b
      simpa using le_total a.standing b.standing
  have apart : (hits.mergeSort ranks).Pairwise (fun a b => a.id ≠ b.id) :=
    List.pairwise_map.mp (ranked.perm (List.mergeSort_perm hits ranks).symm).ids
  refine (sorted.and apart).imp fun {a b} ⟨below, differ⟩ => ?_
  refine lt_of_le_of_ne (of_decide_eq_true below) fun same => ?_
  exact differ (congrArg (fun standing => (ofLex standing).2) same)

theorem Ranked.mergeSort_perm (ranked : Ranked hits) (perm : hits.Perm hits') :
    hits.mergeSort ranks = hits'.mergeSort ranks := by
  have both : (hits.mergeSort ranks).Perm (hits'.mergeSort ranks) :=
    (List.mergeSort_perm ..).trans (perm.trans (List.mergeSort_perm ..).symm)
  refine both.eq_of_pairwise (fun a b _ _ below above => ?_) ranked.pairwise
    (ranked.perm perm).pairwise
  exact absurd below (lt_asymm above)

structure Best (limit : Nat) (hits best : List (Hit Float32)) : Prop where
  count : best.length = min limit hits.length
  distinct : (best.map Hit.id).Nodup
  inside : ∀ hit ∈ best, hit ∈ hits
  sorted : best.Pairwise Precedes
  complete : ∀ other ∈ hits, other ∉ best → ∀ hit ∈ best, ¬ other.Precedes hit

theorem mem_of_mem_take_mergeSort (best : a ∈ (hits.mergeSort ranks).take limit) : a ∈ hits :=
  List.mem_mergeSort.mp (List.mem_of_mem_take best)

theorem Ranked.best (ranked : Ranked hits) (limit : Nat) :
    Best limit hits ((hits.mergeSort ranks).take limit) where
  count := by rw [List.length_take, List.length_mergeSort]
  distinct := by
    have ids := (ranked.perm (List.mergeSort_perm hits ranks).symm).ids
    exact ids.sublist ((List.take_sublist ..).map Hit.id)
  inside hit taken := mem_of_mem_take_mergeSort taken
  sorted := by
    refine (ranked.pairwise.sublist (List.take_sublist ..)).imp_of_mem fun first second below => ?_
    exact (precedes_iff (ranked.numbers _ (mem_of_mem_take_mergeSort first))
      (ranked.numbers _ (mem_of_mem_take_mergeSort second))).mpr below
  complete := by
    intro other inside omitted hit taken before
    -- What the sorted hits have behind the returned ones stands above each of these.
    have split := List.take_append_drop limit (hits.mergeSort ranks)
    have dropped : other ∈ (hits.mergeSort ranks).drop limit := by
      have sorted : other ∈ hits.mergeSort ranks := List.mem_mergeSort.mpr inside
      rw [← split, List.mem_append] at sorted
      exact sorted.resolve_left omitted
    have ranking := ranked.pairwise
    rw [← split, List.pairwise_append] at ranking
    have above := (precedes_iff (ranked.numbers other inside)
      (ranked.numbers hit (mem_of_mem_take_mergeSort taken))).mp before
    exact lt_asymm above (ranking.2.2 hit taken other dropped)

end Hit

end CodeGraph
