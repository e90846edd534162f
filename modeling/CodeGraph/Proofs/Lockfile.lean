import CodeGraph.Package.Lockfile

set_option autoImplicit false

namespace CodeGraph.Lockfile

variable {packages : LockedPackages} {name other : String}

theorem lookup_addNew (packages : LockedPackages) (name other : String) (locked : LockedPackage) :
    (addNew packages other locked).lookup name =
      (packages.lookup name).or (if name = other then some locked else none) := by
  unfold addNew
  split
  next taken =>
    by_cases same : name = other
    · subst same
      rw [Option.or_of_isSome taken]
    · simp [same]
  next =>
    rw [List.lookup_append]
    by_cases same : name = other
    · simp [same]
    · simp [List.lookup_cons, beq_false_of_ne same, same]

theorem lookup_foldl_of_adds {α : Type} {step : LockedPackages → α → LockedPackages}
    {pin? : α → Option LockedPackage}
    (adds : ∀ packages entry,
      (step packages entry).lookup name = (packages.lookup name).or (pin? entry))
    (packages : LockedPackages) (entries : List α) :
    (entries.foldl step packages).lookup name =
      (packages.lookup name).or (entries.findSome? pin?) := by
  induction entries generalizing packages with
  | nil => simp
  | cons entry rest ih =>
      rw [List.foldl_cons, ih, adds, Option.or_assoc, List.findSome?_cons]
      cases pin? entry <;> rfl

end CodeGraph.Lockfile
