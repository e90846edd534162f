import CodeGraph.Proofs.Path
import Mathlib.Data.List.Induction

/-!
Where segments lead: `..` goes to the directory above, a name to a place below, and all else stays.
The place that segments lead to from the root is the one that the normal form of a path is made of;
segments without such a place climb above the root.
-/

set_option autoImplicit false

namespace CodeGraph.Path

def Descends (segment : String) : Prop :=
  segment ≠ "" ∧ segment ≠ "." ∧ segment ≠ ".."

instance (segment : String) : Decidable (Descends segment) :=
  inferInstanceAs (Decidable (segment ≠ "" ∧ segment ≠ "." ∧ segment ≠ ".."))

/-- The way from one place to another. A place is given by the names that lead to it from the
root. -/
inductive Leads : List String → List String → List String → Prop
  | arrived (place : List String) : Leads place [] place
  | stay {place rest target : List String} {segment : String}
      (idle : segment = "" ∨ segment = ".") (onward : Leads place rest target) :
      Leads place (segment :: rest) target
  | up {place rest target : List String} (part : String) (onward : Leads place rest target) :
      Leads (place ++ [part]) (".." :: rest) target
  | down {place rest target : List String} {segment : String} (descends : Descends segment)
      (onward : Leads (place ++ [segment]) rest target) : Leads place (segment :: rest) target

def Climbs (segments : List String) : Prop :=
  ∃ before after, segments = before ++ ".." :: after ∧ Leads [] before []

/-- Segments that have gone up more often than down at some point. -/
def Overclimbs (segments : List String) : Prop :=
  ∃ before, before <+: segments ∧ before.countP (Descends ·) < before.count ".."

/-- A path without empty, `.` and `..` segments; the empty path is the root itself. -/
def IsNormal (path : String) : Prop :=
  path = "" ∨ ∀ segment ∈ segments path, Descends segment

variable {place target way others names : List String} {segment path normal : String}

theorem Leads.append {middle : List String} (first : Leads place way middle)
    (second : Leads middle others target) : Leads place (way ++ others) target := by
  induction first with
  | arrived => exact second
  | stay idle _ ih => exact .stay idle (ih second)
  | up part _ ih => exact .up part (ih second)
  | down descends _ ih => exact .down descends (ih second)

theorem Leads.descend (descend : ∀ segment ∈ names, Descends segment) (place : List String) :
    Leads place names (place ++ names) := by
  induction names generalizing place with
  | nil =>
      rw [List.append_nil]
      exact .arrived place
  | cons first rest ih =>
      obtain ⟨down, below⟩ := List.forall_mem_cons.mp descend
      have onward := ih below (place ++ [first])
      rw [List.append_assoc, List.singleton_append] at onward
      exact .down down onward

theorem Leads.ascend (place parts : List String) :
    Leads (place ++ parts) (List.replicate parts.length "..") place := by
  induction parts using List.reverseRecOn with
  | nil =>
      rw [List.append_nil]
      exact .arrived place
  | append_singleton front last ih =>
      rw [List.length_append, List.length_singleton, List.replicate_succ, ← List.append_assoc]
      exact .up last ih

theorem enter?_eq_of_idle (idle : segment = "" ∨ segment = ".") (place : List String) :
    enter? place segment = some place := by
  rcases idle with rfl | rfl <;> simp [enter?]

theorem enter?_eq_of_descends (descends : Descends segment) (place : List String) :
    enter? place segment = some (segment :: place) := by
  simp [enter?, descends.1, descends.2.1, descends.2.2]

theorem enter?_up (part : String) (parent : List String) :
    enter? (part :: parent) ".." = some parent := rfl

theorem idle_or_up_or_descends (segment : String) :
    (segment = "" ∨ segment = ".") ∨ segment = ".." ∨ Descends segment := by
  unfold Descends
  by_cases empty : segment = "" <;> by_cases dot : segment = "." <;>
    by_cases above : segment = ".." <;> simp [empty, dot, above]

theorem foldlM_enter?_eq_some_iff : way.foldlM enter? place.reverse = some target.reverse ↔
    Leads place way target := by
  constructor
  · intro entered
    induction way generalizing place with
    | nil =>
        obtain rfl := List.reverse_inj.mp (Option.some.inj entered)
        exact .arrived place
    | cons segment rest ih =>
        rw [List.foldlM_cons] at entered
        rcases idle_or_up_or_descends segment with idle | rfl | descends
        · rw [enter?_eq_of_idle idle] at entered
          exact .stay idle (ih entered)
        · induction place using List.reverseRecOn with
          | nil => cases entered
          | append_singleton parent part _ =>
              rw [List.reverse_concat, enter?_up] at entered
              exact .up part (ih entered)
        · rw [enter?_eq_of_descends descends, ← List.reverse_concat] at entered
          exact .down descends (ih entered)
  · intro leads
    induction leads with
    | arrived => rfl
    | stay idle _ ih => rwa [List.foldlM_cons, enter?_eq_of_idle idle]
    | up part _ ih => rwa [List.foldlM_cons, List.reverse_concat, enter?_up]
    | down descends _ ih =>
        rw [List.reverse_concat] at ih
        rwa [List.foldlM_cons, enter?_eq_of_descends descends]

theorem place?_eq_some_iff : place? way = some target.reverse ↔ Leads [] way target :=
  @foldlM_enter?_eq_some_iff [] target way

theorem place?_eq_none_iff : place? way = none ↔ Climbs way := by
  constructor
  · intro refused
    -- The first segments lead to a place, up to the one that leaves the root.
    induction way using List.reverseRecOn with
    | nil => cases refused
    | append_singleton front last ih =>
        unfold place? at refused ih
        rw [List.foldlM_append] at refused
        cases reached : front.foldlM enter? [] with
        | none =>
            obtain ⟨before, after, rfl, root⟩ := ih reached
            exact ⟨before, after ++ [last], by simp, root⟩
        | some place =>
            rw [reached] at refused
            rcases idle_or_up_or_descends last with idle | rfl | descends
            · simp [enter?_eq_of_idle idle] at refused
            · cases place with
              | nil => exact ⟨front, [], rfl, place?_eq_some_iff.mp reached⟩
              | cons part parent => cases refused
            · simp [enter?_eq_of_descends descends] at refused
  · rintro ⟨before, after, rfl, root⟩
    have reached : before.foldlM enter? [] = some [] := place?_eq_some_iff.mpr root
    rw [place?, List.foldlM_append, reached]
    rfl

theorem Leads.unique {other : List String} (leads : Leads [] way target)
    (leads' : Leads [] way other) : other = target := by
  have same := (place?_eq_some_iff.mpr leads').symm.trans (place?_eq_some_iff.mpr leads)
  exact List.reverse_inj.mp (Option.some.inj same)

theorem Leads.not_climbs (leads : Leads [] way target) : ¬Climbs way := by
  rw [← place?_eq_none_iff, place?_eq_some_iff.mpr leads]
  exact Option.some_ne_none _

theorem leads_or_climbs (way : List String) :
    (∃ target, Leads [] way target) ∨ Climbs way := by
  cases reached : place? way with
  | none => exact .inr (place?_eq_none_iff.mp reached)
  | some place =>
      rw [← place.reverse_reverse] at reached
      exact .inl ⟨_, place?_eq_some_iff.mp reached⟩

theorem Leads.areParts (leads : Leads place way target)
    (whole : ∀ segment ∈ way, '/' ∉ segment.toList) (areParts : ∀ part ∈ place, IsPart part) :
    ∀ part ∈ target, IsPart part := by
  induction leads with
  | arrived => exact areParts
  | stay _ _ ih => exact ih (List.forall_mem_cons.mp whole).2 areParts
  | up part _ ih =>
      exact ih (List.forall_mem_cons.mp whole).2 fun part inside =>
        areParts part (List.mem_append_left _ inside)
  | down descends _ ih =>
      obtain ⟨clean, later⟩ := List.forall_mem_cons.mp whole
      refine ih later fun part inside => ?_
      rcases List.mem_append.mp inside with old | new
      · exact areParts part old
      · rw [List.mem_singleton.mp new]
        exact ⟨⟨descends.1, descends.2.1⟩, clean⟩

theorem Leads.balance (leads : Leads place way target) :
    target.length + way.count ".." = place.length + way.countP (Descends ·) := by
  induction leads with
  | arrived => simp
  | stay idle _ ih =>
      rcases idle with rfl | rfl <;> simpa [Descends] using ih
  | up part _ ih =>
      rw [List.count_cons_self, List.countP_cons_of_neg (by simp [Descends]), List.length_append,
        List.length_singleton]
      omega
  | down descends _ ih =>
      simp only [List.length_append, List.length_singleton] at ih
      rw [List.count_cons_of_ne descends.2.2, List.countP_cons_of_pos (by simpa using descends)]
      omega

theorem climbs_iff_overclimbs : Climbs way ↔ Overclimbs way := by
  constructor
  · rintro ⟨before, after, rfl, root⟩
    -- At the root the ups and downs are even, and the next segment goes up.
    have even := root.balance
    refine ⟨before ++ [".."], ⟨after, by simp⟩, ?_⟩
    rw [List.length_nil, Nat.zero_add, Nat.zero_add] at even
    rw [List.count_append, List.countP_append, even]
    simp [Descends]
  · rintro ⟨before, ⟨after, rfl⟩, more⟩
    rcases leads_or_climbs before with ⟨target, leads⟩ | ⟨start, rest, rfl, root⟩
    · have balance := leads.balance
      simp only [List.length_nil] at balance
      omega
    · exact ⟨start, rest ++ after, by simp, root⟩

theorem Leads.descends (leads : Leads place way target)
    (descend : ∀ part ∈ place, Descends part) : ∀ part ∈ target, Descends part := by
  induction leads with
  | arrived => exact descend
  | stay _ _ ih => exact ih descend
  | up part _ ih => exact ih fun other inside => descend other (List.mem_append_left _ inside)
  | down descends _ ih =>
      refine ih fun part inside => ?_
      rcases List.mem_append.mp inside with old | new
      · exact descend part old
      · rwa [List.mem_singleton.mp new]

theorem leads_segments_ofParts (areParts : ∀ part ∈ names, IsPart part)
    (descend : ∀ part ∈ names, Descends part) : Leads [] (segments (ofParts names)) names := by
  cases names with
  | nil =>
      -- The empty path has one segment, which is empty.
      have root : segments (ofParts []) = [""] := by decide
      rw [root]
      exact .stay (.inl rfl) (.arrived [])
  | cons first rest =>
      rw [segments_ofParts (by simp) areParts]
      exact Leads.descend descend []

theorem isNormal_ofParts (areParts : ∀ part ∈ names, IsPart part)
    (descend : ∀ part ∈ names, Descends part) : IsNormal (ofParts names) := by
  cases names with
  | nil => exact .inl (by decide)
  | cons first rest =>
      rw [IsNormal, segments_ofParts (by simp) areParts]
      exact .inr descend

theorem normalize?_eq_none_iff : normalize? path = none ↔ Climbs (segments path) := by
  rw [normalize?, Option.map_eq_none_iff, place?_eq_none_iff]

theorem normalize?_of_leads (leads : Leads [] (segments path) target) :
    normalize? path = some (ofParts target) := by
  rw [normalize?, place?_eq_some_iff.mpr leads, Option.map_some, List.reverse_reverse]

theorem exists_leads_of_normalize? (normalized : normalize? path = some normal) :
    ∃ target, Leads [] (segments path) target ∧ ofParts target = normal := by
  rcases leads_or_climbs (segments path) with ⟨target, leads⟩ | climbs
  · rw [normalize?_of_leads leads] at normalized
    exact ⟨target, leads, Option.some.inj normalized⟩
  · rw [normalize?_eq_none_iff.mpr climbs] at normalized
    cases normalized

theorem Leads.place?_append (leads : Leads [] way target) (others : List String) :
    place? (way ++ others) = others.foldlM enter? target.reverse := by
  have reached : way.foldlM enter? [] = some target.reverse := place?_eq_some_iff.mpr leads
  rw [place?, List.foldlM_append, reached]
  rfl

theorem normalize?_append {path' : String} (leads : Leads [] (segments path) target)
    (leads' : Leads [] (segments path') target) (onward : String) :
    normalize? (path ++ "/" ++ onward) = normalize? (path' ++ "/" ++ onward) := by
  rw [normalize?, normalize?, segments_append, segments_append, leads.place?_append,
    leads'.place?_append]

/-- A path has no normal form just if it goes up more often than down at some point. Else its normal
form has names alone, those of the place that the path leads to, is its own normal form, and may
stand for the path in every longer one. -/
theorem normalize_gives_normal_form (path : String) :
    (normalize? path = none ↔ Overclimbs (segments path)) ∧
    ∀ normal, normalize? path = some normal →
      IsNormal normal ∧ Leads [] (segments path) (parts normal) ∧
      normalize? normal = some normal ∧
      ∀ onward, normalize? (path ++ "/" ++ onward) = normalize? (normal ++ "/" ++ onward) := by
  refine ⟨normalize?_eq_none_iff.trans climbs_iff_overclimbs, fun normal normalized => ?_⟩
  obtain ⟨target, leads, rfl⟩ := exists_leads_of_normalize? normalized
  have areParts : ∀ part ∈ target, IsPart part :=
    leads.areParts (fun _ => slash_not_mem_of_mem_segments) (by simp)
  have descend : ∀ part ∈ target, Descends part := leads.descends (by simp)
  have again : Leads [] (segments (ofParts target)) target :=
    leads_segments_ofParts areParts descend
  refine ⟨isNormal_ofParts areParts descend, ?_, normalize?_of_leads again,
    normalize?_append leads again⟩
  rwa [parts_ofParts areParts]

theorem normal_form_of_path_over_root :
    normalize? "/a//./../src/b/" = some "src/b" ∧ IsNormal "src/b" ∧
      normalize? "src/b" = some "src/b" ∧
      normalize? ("/a//./../src/b/" ++ "/" ++ "../../c") =
        normalize? ("src/b" ++ "/" ++ "../../c") ∧
      Overclimbs (segments "/a//./../../src") := by
  have normalized : normalize? "/a//./../src/b/" = some "src/b" := by decide +kernel
  obtain ⟨isNormal, -, again, longer⟩ :=
    (normalize_gives_normal_form "/a//./../src/b/").2 "src/b" normalized
  refine ⟨normalized, isNormal, again, longer "../../c", ?_⟩
  exact (normalize_gives_normal_form "/a//./../../src").1.mp (by decide +kernel)

end CodeGraph.Path
