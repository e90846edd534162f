import CodeGraph.Proofs.Discovery
import CodeGraph.Proofs.Resolver
import Mathlib.Data.List.Infix

set_option autoImplicit false

namespace CodeGraph

def DiskEntry.content? : DiskEntry → Option FileContent
  | .file content => some content
  | .directory => none

namespace Disk

/-- Whatever is there stands in a directory, all the way up. -/
def Tree (disk : Disk) : Prop :=
  ∀ above below, below ≠ [] → disk.at? (above ++ below) ≠ none → disk.at? above = some .directory

def fileAt? (disk : Disk) (location : Location) : Option FileContent :=
  (disk.at? location).bind DiskEntry.content?

def accepts (disk : Disk) (location : Location) : Bool :=
  (List.range location.length).all (fun count => (disk.fileAt? (location.take count)).isNone) &&
    !disk.isDirectoryAt location

def change (disk : Disk) (location : Location) : Option FileContent → Disk
  | some content => if disk.accepts location then disk.put location content else disk
  | none => if (disk.fileAt? location).isSome then disk.remove location else disk

variable {disk : Disk} {location place : Location}

theorem Tree.foldlM_follow (tree : disk.Tree) {names start : List String}
    (plain : ∀ part ∈ names, part ≠ "..")
    (there : disk.at? (start.reverse ++ names) ≠ none) :
    names.foldlM disk.follow start = .ok (names.reverse ++ start) := by
  induction names generalizing start with
  | nil => rfl
  | cons part rest ih =>
      have directory := tree start.reverse (part :: rest) (by simp) there
      have step : disk.follow start part = .ok (part :: start) := by
        simp only [follow, directory]
        exact if_neg (by simpa using plain part (List.mem_cons_self ..))
      have later := ih (fun name inside => plain name (List.mem_cons_of_mem _ inside))
        (by simpa using there : disk.at? ((part :: start).reverse ++ rest) ≠ none)
      rw [List.foldlM_cons, step]
      simpa [bind, Except.bind] using later

/-- In a tree an absolute path without steps back leads to the location that it spells. -/
theorem Tree.content?_eq (tree : disk.Tree) {path : List String} (absolute : path.head? = some "/")
    (plain : ".." ∉ path) : disk.content? path = disk.fileAt? path.tail := by
  obtain ⟨names, rfl⟩ : ∃ names, path = "/" :: names := by
    cases path with
    | nil => cases absolute
    | cons first names => exact ⟨names, by rw [Option.some.inj absolute]⟩
  have names_plain : ∀ part ∈ names, part ≠ ".." := by
    rintro part inside rfl
    exact plain (List.mem_cons_of_mem _ inside)
  simp only [content?, fileAt?, lookup, locate, List.head?_cons, BEq.rfl, if_true,
    List.tail_cons]
  cases there : disk.at? names with
  | some entry =>
      rw [tree.foldlM_follow names_plain (by simp [there])]
      simp only [List.append_nil, bind, Except.bind, List.reverse_reverse, there]
      cases entry <;> rfl
  | none =>
      cases followed : names.foldlM disk.follow [] with
      | error error => rfl
      | ok final =>
          rw [Discovery.foldlM_follow names_plain followed]
          simp only [List.append_nil, bind, Except.bind, List.reverse_reverse, there]
          rfl

theorem at?_eq_get? (solid : place ≠ []) :
    disk.at? place = (Table.get? Prod.fst disk.entries place).map Prod.snd := by
  simp [at?, solid]

theorem at?_nil : disk.at? [] = some .directory := rfl

theorem at?_add {part : Location} (solid : part ≠ []) (missing : disk.at? part = none) :
    at? ⟨disk.entries ++ [(part, .directory)]⟩ place =
      if place = part then some .directory else disk.at? place := by
  by_cases top : place = []
  · subst top
    rw [if_neg (Ne.symm solid)]
    rfl
  rw [at?_eq_get? top, at?_eq_get? top, Table.get?, List.find?_append]
  by_cases same : place = part
  · subst same
    rw [at?_eq_get? top, Option.map_eq_none_iff, Table.get?] at missing
    simp [missing]
  · simp [same, Ne.symm same, Table.get?]

theorem makeDirectory_nil : disk.makeDirectory [] = disk := rfl

theorem makeDirectory_concat (above : Location) (name : String) :
    disk.makeDirectory (above ++ [name]) =
      if (disk.makeDirectory above).at? (above ++ [name]) = none then
        ⟨(disk.makeDirectory above).entries ++ [(above ++ [name], .directory)]⟩
      else disk.makeDirectory above := by
  rw [makeDirectory, List.length_append, List.length_singleton, List.range_succ, List.foldl_append,
    List.foldl_cons, List.foldl_nil, List.take_of_length_le (by simp)]
  -- The shorter parts of the location are those of the directory above.
  rw [List.foldl_ext _ _ disk (fun made count inside => by
    rw [List.take_append_of_le_length (Nat.succ_le_of_lt (List.mem_range.mp inside))]),
    ← makeDirectory]
  cases there : (disk.makeDirectory above).at? (above ++ [name]) with
  | none => simp only [there, if_true]
  | some entry => simp only [there, reduceCtorEq, if_false]

theorem at?_makeDirectory :
    (disk.makeDirectory location).at? place =
      if place <+: location ∧ disk.at? place = none then some .directory else disk.at? place := by
  induction location using List.reverseRecOn generalizing place with
  | nil =>
      have nowhere : ¬(place <+: [] ∧ disk.at? place = none) := by
        rintro ⟨within, missing⟩
        rw [List.prefix_nil] at within
        rw [within] at missing
        cases missing
      rw [if_neg nowhere, makeDirectory_nil]
  | append_singleton above name ih =>
      -- The only location that was not there a step before is the whole of the longer one.
      have new : ¬above ++ [name] <+: above := by
        intro within
        have shorter := within.length_le
        rw [List.length_append, List.length_singleton] at shorter
        omega
      have untouched : (disk.makeDirectory above).at? (above ++ [name]) =
          disk.at? (above ++ [name]) := by
        rw [ih, if_neg (fun both => new both.1)]
      simp only [makeDirectory_concat, List.prefix_concat_iff]
      split
      next missing =>
        rw [at?_add (by simp) missing, ih]
        rw [untouched] at missing
        by_cases same : place = above ++ [name]
        · simp [same, missing]
        · simp [same]
      next there =>
        rw [untouched] at there
        rw [ih]
        by_cases same : place = above ++ [name]
        · simp [same, there]
        · simp [same]

theorem at?_put (solid : location ≠ []) (content : FileContent) :
    (disk.put location content).at? place =
      if place = location then some (.file content)
      else if place <+: location.dropLast ∧ disk.at? place = none then some .directory
      else disk.at? place := by
  by_cases top : place = []
  · subst top
    simp [at?_nil, Ne.symm solid]
  rw [at?_eq_get? top]
  by_cases same : place = location
  · rw [if_pos same, same, put,
      Table.get?_put_self Prod.fst (location, DiskEntry.file content)]
    rfl
  · rw [if_neg same, put, Table.get?_put_of_ne Prod.fst _ _ _ (Ne.symm same), ← at?_eq_get? top,
      at?_makeDirectory]

theorem fileAt?_makeDirectory :
    (disk.makeDirectory location).fileAt? place = disk.fileAt? place := by
  rw [fileAt?, fileAt?, at?_makeDirectory]
  split
  next new => rw [new.2]; rfl
  next => rfl

theorem fileAt?_put (solid : location ≠ []) (content : FileContent) :
    (disk.put location content).fileAt? place =
      if place = location then some content else disk.fileAt? place := by
  rw [fileAt?, fileAt?, at?_put solid, apply_ite (Option.bind · DiskEntry.content?)]
  congr 1
  split
  next new => rw [new.2]; rfl
  next => rfl

theorem fileAt?_enter? {parts place : List String} {made : Disk × List String}
    (entered : parts.foldlM enter? (disk, place) = some made) :
    made.1.fileAt? location = disk.fileAt? location := by
  induction parts generalizing disk place with
  | nil =>
      cases entered
      rfl
  | cons part rest ih =>
      rw [List.foldlM_cons, Option.bind_eq_bind, Option.bind_eq_some_iff] at entered
      obtain ⟨⟨disk', place'⟩, first, entered⟩ := entered
      rw [ih entered]
      simp only [enter?] at first
      split at first
      next => cases first; rfl
      next =>
        split at first
        next => cases first; rfl
        next => cases first
        next => cases first; exact fileAt?_makeDirectory

theorem fileAt?_enterDirectory? {path : List String} {made : Disk} {directory : Location}
    (entered : disk.enterDirectory? path = some (made, directory)) :
    made.fileAt? location = disk.fileAt? location := by
  simp only [enterDirectory?, Option.bind_eq_bind, Option.bind_eq_some_iff] at entered
  obtain ⟨⟨disk', place⟩, all, done⟩ := entered
  cases done
  exact fileAt?_enter? all

theorem at?_remove (solid : location ≠ []) :
    (disk.remove location).at? place = if location <+: place then none else disk.at? place := by
  by_cases top : place = []
  · subst top
    rw [if_neg (by simpa using solid)]
    rfl
  rw [at?_eq_get? top, at?_eq_get? top, Table.get?, remove, List.find?_filter]
  by_cases within : location <+: place
  · rw [if_pos within, Option.map_eq_none_iff, List.find?_eq_none]
    rintro entry - both
    simp only [decide_eq_true_eq, Bool.not_eq_eq_eq_not, Bool.not_true] at both
    rw [both.2, ← Bool.not_eq_true, List.isPrefixOf_iff_prefix] at both
    exact both.1 within
  · rw [if_neg within, Table.get?]
    congr 2
    funext entry
    by_cases same : entry.1 = place
    · simpa [same, ← Bool.not_eq_true] using within
    · simp [same]

theorem directory_or_none_of_accepts (accepted : disk.accepts location = true)
    (above : place <+: location) (other : place ≠ location) :
    disk.at? place = none ∨ disk.at? place = some .directory := by
  obtain ⟨rest, rfl⟩ := above
  simp only [accepts, Bool.and_eq_true, List.all_eq_true, List.mem_range] at accepted
  have short : place.length < (place ++ rest).length := by
    rw [List.length_append]
    have := List.length_pos_iff.mpr (fun empty : rest = [] => other (by simp [empty]))
    omega
  have free := accepted.1 place.length short
  rw [List.take_left] at free
  cases there : disk.at? place with
  | none => exact .inl rfl
  | some entry =>
      cases entry with
      | directory => exact .inr rfl
      | file bytes => simp [fileAt?, there, DiskEntry.content?] at free

theorem ne_nil_of_accepts (accepted : disk.accepts location = true) : location ≠ [] := by
  rintro rfl
  simp [accepts, isDirectoryAt, at?_nil] at accepted

theorem ne_nil_of_fileAt? (file : (disk.fileAt? location).isSome = true) : location ≠ [] := by
  rintro rfl
  cases file

theorem Tree.put (tree : disk.Tree) (accepted : disk.accepts location = true)
    (content : FileContent) : (disk.put location content).Tree := by
  have solid := ne_nil_of_accepts accepted
  -- What stands above the file is a directory afterwards, whether it was there before or not.
  have above_file (above below : List String) (some_below : below ≠ [])
      (within : above ++ below <+: location) :
      (disk.put location content).at? above = some .directory := by
    have higher : above <+: location := (List.prefix_append _ _).trans within
    have other : above ≠ location := by
      rintro rfl
      have shorter := within.length_le
      have := List.length_pos_iff.mpr some_below
      simp only [List.length_append] at shorter
      omega
    have inside : above <+: location.dropLast := by
      rw [← List.dropLast_concat_getLast solid, List.prefix_concat_iff] at higher
      rcases higher with whole | inside
      · exact absurd (whole.trans (List.dropLast_concat_getLast solid)) other
      · exact inside
    rw [at?_put solid, if_neg other]
    rcases directory_or_none_of_accepts accepted higher other with missing | there
    · rw [if_pos ⟨inside, missing⟩]
    · rw [if_neg (by simp [there]), there]
  intro above below some_below there
  rw [at?_put solid] at there
  split at there
  next same => exact above_file above below some_below (by rw [same])
  next =>
    split at there
    next within =>
      exact above_file above below some_below (within.1.trans (List.dropLast_prefix _))
    next =>
      have directory := tree above below some_below there
      have other : above ≠ location := by
        rintro rfl
        simp [accepts, isDirectoryAt, directory] at accepted
      rw [at?_put solid, if_neg other, if_neg (by simp [directory]), directory]

theorem Tree.change (tree : disk.Tree) (location : Location) (content : Option FileContent) :
    (disk.change location content).Tree := by
  cases content with
  | some content =>
      simp only [Disk.change]
      split
      next accepted => exact tree.put accepted content
      next => exact tree
  | none =>
      simp only [Disk.change]
      split
      next file =>
        have solid := ne_nil_of_fileAt? file
        intro above below some_below there
        rw [at?_remove solid] at there ⊢
        have outside : ¬location <+: above ++ below := fun within => there (if_pos within)
        rw [if_neg outside] at there
        rw [if_neg (fun within => outside (within.trans (List.prefix_append _ _)))]
        exact tree above below some_below there
      next => exact tree

theorem Tree.fileAt?_change (tree : disk.Tree) (content : Option FileContent)
    (other : place ≠ location) :
    (disk.change location content).fileAt? place = disk.fileAt? place := by
  cases content with
  | some bytes =>
      simp only [Disk.change]
      split
      next accepted =>
        rw [fileAt?_put (ne_nil_of_accepts accepted), if_neg other]
      next => rfl
  | none =>
      simp only [Disk.change]
      split
      next file =>
        have solid := ne_nil_of_fileAt? file
        rw [fileAt?, fileAt?, at?_remove solid]
        split
        next within =>
          -- Nothing stands below a file, so nothing else went with it.
          obtain ⟨below, rfl⟩ := within
          have nothing : disk.at? (location ++ below) = none := by
            by_contra there
            have directory := tree location below (by rintro rfl; simp at other) there
            rw [fileAt?, directory] at file
            cases file
          rw [nothing]
        next => rfl
      next => rfl

theorem Tree.content?_change (tree : disk.Tree) (content : Option FileContent)
    {path changed : List String} (absolute : path.head? = some "/")
    (absolute' : changed.head? = some "/") (plain : ".." ∉ path) (other : path ≠ changed) :
    (disk.change changed.tail content).content? path = disk.content? path := by
  rw [(tree.change _ content).content?_eq absolute plain, tree.content?_eq absolute plain]
  refine tree.fileAt?_change content fun same => other ?_
  rw [← List.cons_head?_tail absolute, ← List.cons_head?_tail absolute', same]

end Disk

end CodeGraph
