import CodeGraph.Proofs.Discovery.Walk
import Mathlib.Data.List.TakeWhile

/-!
Two ways to leave out a file: a walk looks at the ignore files of every directory on its way, the
filter for single paths looks at the names, the patterns and the ignore file of the root.

`filter_agrees_iff` says when the two come to the same answer about an existing file. A file is
`Missed` by the filter if only the ignore files on the way rule it out, and `Revealed` to the walk
if these keep it although the filter turns it down. Where the ignore file of the root is the only
one and has no rule that keeps a path, there is no such file.
-/

set_option autoImplicit false

namespace CodeGraph

namespace Disk

variable {disk : Disk}

theorem follow_cases {place next : List String} {part : String}
    (followed : disk.follow place part = .ok next) :
    disk.at? place.reverse = some .directory ∧
      (part = ".." ∧ next = place.tail ∨ part ≠ ".." ∧ next = part :: place) := by
  unfold follow at followed
  split at followed
  · cases followed
  · cases followed
  next there =>
    refine ⟨there, ?_⟩
    split at followed
    next up => exact .inl ⟨beq_iff_eq.mp up, (Except.ok.inj followed).symm⟩
    next down => exact .inr ⟨by simpa using down, (Except.ok.inj followed).symm⟩

structure Walked (disk : Disk) (place : List String) : Prop where
  forward : ∀ part ∈ place, part ≠ ".." ∧ part ≠ "/"
  reached : place.reverse.foldlM disk.follow [] = .ok place

theorem Walked.follow {place next : List String} {part : String} (walked : disk.Walked place)
    (named : part ≠ "/") (followed : disk.follow place part = .ok next) : disk.Walked next := by
  rcases (follow_cases followed).2 with ⟨-, rfl⟩ | ⟨down, rfl⟩
  · cases place with
    | nil => exact walked
    | cons last above =>
        -- The way to a place leads through the directory above it.
        have reached := walked.reached
        rw [List.reverse_cons, List.foldlM_append] at reached
        obtain ⟨before, way, step⟩ := Table.of_bind_eq_ok reached
        rw [List.foldlM_cons] at step
        obtain ⟨after, step, done⟩ := Table.of_bind_eq_ok step
        obtain rfl : after = last :: above := Except.ok.inj done
        rcases (follow_cases step).2 with ⟨up, -⟩ | ⟨-, same⟩
        · exact absurd up (walked.forward last (List.mem_cons_self ..)).1
        · refine ⟨fun part inside => walked.forward part (List.mem_cons_of_mem _ inside), ?_⟩
          rw [List.tail_cons, way, (List.cons.inj same).2]
  · refine ⟨List.forall_mem_cons.mpr ⟨⟨down, named⟩, walked.forward⟩, ?_⟩
    rw [List.reverse_cons, List.foldlM_append, walked.reached]
    simp only [bind, Except.bind, List.foldlM_cons, followed, List.foldlM_nil]
    rfl

theorem Walked.foldlM {names start final : List String} (walked : disk.Walked start)
    (named : ∀ part ∈ names, part ≠ "/") (followed : names.foldlM disk.follow start = .ok final) :
    disk.Walked final := by
  induction names generalizing start with
  | nil => exact Except.ok.inj followed ▸ walked
  | cons part rest ih =>
      rw [List.foldlM_cons] at followed
      obtain ⟨next, step, later⟩ := Table.of_bind_eq_ok followed
      exact ih (walked.follow (named part (List.mem_cons_self ..)) step)
        (fun part inside => named part (List.mem_cons_of_mem _ inside)) later

theorem locate_eq_ok {root : List String} (isRoot : Path.IsRoot root) {location : Location}
    {top : DiskEntry} :
    disk.locate root = .ok (location, top) ↔
      root.tail.foldlM disk.follow [] = .ok location.reverse ∧ disk.at? location = some top := by
  rw [← isRoot.cons_tail]
  simp only [locate, List.head?_cons, BEq.rfl, if_true, List.tail_cons, bind, Except.bind]
  cases root.tail.foldlM disk.follow [] with
  | error error => simp
  | ok place =>
      dsimp only
      constructor
      · intro located
        split at located
        next entry there =>
          obtain ⟨rfl, rfl⟩ := Prod.mk.inj (Except.ok.inj located)
          exact ⟨by rw [List.reverse_reverse], there⟩
        next => cases located
      · rintro ⟨same, there⟩
        obtain rfl := Except.ok.inj same
        rw [List.reverse_reverse, there]
        rfl

theorem locate_of_isFile {root parts : List String} (isRoot : Path.IsRoot root)
    (areParts : ∀ part ∈ parts, Path.IsPart part) (solid : parts ≠ [])
    (isFile : disk.isFile (root ++ parts) = true) :
    ∃ location, disk.locate root = .ok (location, .directory) := by
  obtain ⟨place, content, found⟩ : ∃ place content, disk.locate (root ++ parts) =
      .ok (place, content) := by
    cases found : disk.locate (root ++ parts) with
    | error error => simp [Disk.isFile, lookup, found] at isFile
    | ok answer => exact ⟨answer.1, answer.2, rfl⟩
  have way := ((locate_eq_ok (isRoot.append areParts)).mp found).1
  rw [List.tail_append_of_ne_nil (by rintro rfl; cases isRoot.absolute), List.foldlM_append] at way
  obtain ⟨start, first, second⟩ := Table.of_bind_eq_ok way
  obtain ⟨part, rest, rfl⟩ := List.exists_cons_of_ne_nil solid
  rw [List.foldlM_cons] at second
  obtain ⟨next, step, -⟩ := Table.of_bind_eq_ok second
  refine ⟨start.reverse, (locate_eq_ok isRoot).mpr ⟨?_, (follow_cases step).1⟩⟩
  rw [first, List.reverse_reverse]

theorem lookup_location {root location names : List String} (isRoot : Path.IsRoot root)
    {top : DiskEntry} (located : disk.locate root = .ok (location, top))
    (named : ∀ part ∈ names, part ≠ "/") :
    disk.lookup (root ++ names) = disk.lookup (location ++ names) := by
  have way := ((locate_eq_ok isRoot).mp located).1
  have walked : disk.Walked location.reverse := by
    refine Walked.foldlM ⟨by simp, rfl⟩ (fun part inside => ?_) way
    rintro rfl
    exact (isRoot.parts _ inside).whole (by decide)
  have again : location.foldlM disk.follow [] = .ok location.reverse := by
    simpa using walked.reached
  have relative : ((location ++ names).head? == some "/") = false := by
    rw [beq_eq_false_iff_ne]
    intro slash
    rcases List.mem_append.mp (List.mem_of_head? slash) with above | below
    · exact (walked.forward _ (List.mem_reverse.mpr above)).2 rfl
    · exact named _ below rfl
  rw [← isRoot.cons_tail]
  simp only [lookup, locate, relative, List.cons_append, List.head?_cons, BEq.rfl, if_true,
    List.tail_cons, Bool.false_eq_true, if_false, List.foldlM_append, way, again]

end Disk

namespace IgnoreRules

variable {rules : IgnoreRules}

theorem verdict?_eq_some {path : String} {isDirectory : Bool} {verdict : Verdict}
    (found : rules.verdict? path isDirectory = some verdict) :
    ∃ rule ∈ rules, verdict = if rule.keeps then .kept else .ignored := by
  obtain ⟨rule, last, rfl⟩ := Option.map_eq_some_iff.mp found
  exact ⟨rule, List.mem_reverse.mp (List.mem_of_find?_eq_some last), rfl⟩

theorem eq_kept_of_verdict? (keeping : ∀ rule ∈ rules, rule.keeps = true) {path : String}
    {isDirectory : Bool} {verdict : Verdict}
    (found : rules.verdict? path isDirectory = some verdict) : verdict = .kept := by
  obtain ⟨rule, inside, rfl⟩ := verdict?_eq_some found
  rw [keeping rule inside, if_pos rfl]

theorem eq_ignored_of_verdict? (ignoring : ∀ rule ∈ rules, rule.keeps = false) {path : String}
    {isDirectory : Bool} {verdict : Verdict}
    (found : rules.verdict? path isDirectory = some verdict) : verdict = .ignored := by
  obtain ⟨rule, inside, rfl⟩ := verdict?_eq_some found
  rw [ignoring rule inside, if_neg Bool.false_ne_true]

end IgnoreRules

theorem Text.head?_trimEnd {first : Char} {rest : List Char} (solid : Text.isBlank first = false) :
    (Text.trimEnd (first :: rest)).head? = some first := by
  have kept : (rest.reverse ++ [first]).dropWhile Text.isBlank ≠ [] := by
    rw [ne_eq, List.dropWhile_eq_nil_iff]
    intro blank
    rw [blank first (by simp)] at solid
    cases solid
  rw [Text.trimEnd, Text.trimEndBy, List.reverse_cons, List.head?_reverse]
  obtain ⟨dropped, same⟩ := List.dropWhile_suffix (l := rest.reverse ++ [first]) Text.isBlank
  have last := congrArg List.getLast? same
  rw [List.getLast?_append_of_ne_nil _ kept, List.getLast?_concat] at last
  exact last

namespace IgnoreRule

theorem head?_trimmed (line : List Char) : (trimmed ('!' :: line)).head? = some '!' := by
  unfold trimmed
  split
  · rfl
  · exact Text.head?_trimEnd (by decide)

theorem keeps_of_ofText {unclosed : Bool} {line : List Char} {rule : IgnoreRule}
    (start : line.head? = some '!') (read : ofText unclosed line = .ok rule) :
    rule.keeps = true := by
  obtain ⟨rest, rfl⟩ : ∃ rest, line = '!' :: rest := by
    cases line with
    | nil => cases start
    | cons first rest => exact ⟨rest, by rw [Option.some.inj start]⟩
  obtain ⟨glob, -, made⟩ := Table.of_bind_eq_ok read
  rw [← Except.ok.inj made]
  simp [List.isPrefixOf]

theorem keeps_of_ofLine? {unclosed : Bool} {line : List Char} {rule : IgnoreRule}
    (read : ofLine? unclosed ('!' :: line) = .ok (some rule)) : rule.keeps = true := by
  unfold ofLine? at read
  dsimp only at read
  split at read
  · cases read
  · cases text : ofText unclosed (trimmed ('!' :: line)) with
    | error error =>
        rw [text] at read
        cases read
    | ok found =>
        rw [text] at read
        obtain rfl := Option.some.inj (Except.ok.inj read)
        exact keeps_of_ofText (head?_trimmed line) text

end IgnoreRule

theorem IgnoreRules.keeps_of_ofPatterns {patterns : List String} {rules : IgnoreRules}
    (read : ofPatterns patterns = .ok rules) : ∀ rule ∈ rules, rule.keeps = true := by
  induction patterns generalizing rules with
  | nil =>
      cases read
      simp
  | cons pattern rest ih =>
      obtain ⟨rule?, first, read⟩ := Table.of_bind_eq_ok read
      obtain ⟨others, later, joined⟩ := Table.of_bind_eq_ok read
      rw [← Except.ok.inj joined]
      intro rule member
      rcases List.mem_append.mp member with own | other
      · cases line : IgnoreRule.ofLine? false ('!' :: pattern.toList) with
        | error error =>
            rw [line] at first
            cases first
        | ok found =>
            rw [line] at first
            obtain rfl := Except.ok.inj first
            rw [Option.mem_toList] at own
            exact IgnoreRule.keeps_of_ofLine? (own ▸ line)
      · exact ih later rule other

namespace Discovery

variable {disk : Disk} {discovery : Discovery}

def Matched (discovery : Discovery) (parts : List String) : Prop :=
  ∃ count < parts.length, discovery.overrides.verdict? (Path.ofParts (parts.take (count + 1)))
    (decide (count + 1 < parts.length)) = some .kept

/-- What the ignore files that a walk comes by say about an entry on the way to a file. -/
def ruled? (disk : Disk) (location : Location) (parts : List String) (count : Nat) :
    Option Verdict :=
  ignoreFiles.findSome? (fileVerdict? disk (location ++ parts.take (count + 1))
    (decide (count + 1 < parts.length)))

/-- An existing file that the filter lets pass, although an ignore file rules it out. -/
structure Missed (disk : Disk) (discovery : Discovery) (location : Location)
    (parts : List String) : Prop where
  unmatched : ¬discovery.Matched parts
  visible : ∀ part ∈ parts, isHidden part = false
  passed : discovery.rootRules.verdictAbove? (Path.ofParts parts) ≠ some .ignored
  ruled : ∃ count < parts.length, ruled? disk location parts count = some .ignored

/-- A file that the filter turns down, although the ignore files keep all that is hidden on the way
to it and rule out nothing. -/
structure Revealed (disk : Disk) (discovery : Discovery) (location : Location)
    (parts : List String) : Prop where
  unmatched : ¬discovery.Matched parts
  unruled : ∀ count < parts.length, ruled? disk location parts count ≠ some .ignored
  kept : ∀ count < parts.length, ∀ part, parts[count]? = some part → isHidden part = true →
    ruled? disk location parts count = some .kept
  turned : (∃ part ∈ parts, isHidden part = true) ∨
    discovery.rootRules.verdictAbove? (Path.ofParts parts) = some .ignored

theorem starts_eq {parts : List String} (areParts : ∀ part ∈ parts, Path.IsPart part) :
    starts parts =
      (List.range parts.length).map (fun count => Path.ofParts (parts.take (count + 1))) := by
  refine List.map_congr_left fun count _ => ?_
  exact Path.foldl_join_empty fun part inside => areParts part (List.mem_of_mem_take inside)

theorem isIgnored_eq_false {parts : List String} (solid : parts ≠ [])
    (areParts : ∀ part ∈ parts, Path.IsPart part) :
    discovery.isIgnored (Path.ofParts parts) = false ↔
      (∀ part ∈ parts, isHidden part = false) ∧ ¬discovery.Matched parts ∧
        discovery.rootRules.verdictAbove? (Path.ofParts parts) ≠ some .ignored := by
  have hidden : (parts.any fun part => isHidden part && part != ".") = false ↔
      ∀ part ∈ parts, isHidden part = false := by
    rw [List.any_eq_false]
    refine forall₂_congr fun part inside => ?_
    simp [(areParts part inside).named.2]
  have matched : ((starts parts).zipIdx.any fun entry =>
      discovery.overrides.verdict? entry.1 (decide (entry.2 + 1 < parts.length)) == some .kept) =
        false ↔ ¬discovery.Matched parts := by
    rw [Bool.eq_false_iff, ne_eq, not_iff_not, List.any_eq_true, starts_eq areParts]
    constructor
    · rintro ⟨⟨start, index⟩, inside, kept⟩
      rw [List.mem_zipIdx_iff_getElem?] at inside
      simp only [List.getElem?_map, Option.map_eq_some_iff] at inside
      obtain ⟨count, listed, rfl⟩ := inside
      obtain ⟨short, same⟩ := List.getElem?_eq_some_iff.mp listed
      rw [List.getElem_range] at same
      subst same
      exact ⟨index, by simpa using short, by simpa using kept⟩
    · rintro ⟨count, short, kept⟩
      refine ⟨(Path.ofParts (parts.take (count + 1)), count), ?_, by simpa using kept⟩
      rw [List.mem_zipIdx_iff_getElem?]
      simp [short]
  simp only [isIgnored, Path.segments_ofParts solid areParts, Bool.or_eq_false_iff, hidden, matched,
    beq_eq_false_iff_ne, and_assoc]

theorem skips_eq_false (keeping : ∀ rule ∈ discovery.overrides, rule.keeps = true)
    {location : Location} {parts : List String} {count : Nat} (short : count < parts.length) :
    discovery.skips disk location (parts.take (count + 1)) (decide (count + 1 < parts.length)) =
        false ↔
      discovery.overrides.verdict? (Path.ofParts (parts.take (count + 1)))
        (decide (count + 1 < parts.length)) ≠ some .kept ∧
      (ruled? disk location parts count = some .kept ∨
        ruled? disk location parts count = none ∧
          ∀ part, parts[count]? = some part → isHidden part = false) := by
  have last : (parts.take (count + 1)).getLast? = some parts[count] := by
    rw [List.getLast?_take]
    simp [short]
  unfold skips ruled?
  split
  next verdict found =>
    obtain rfl := IgnoreRules.eq_kept_of_verdict? keeping found
    simp [found]
  next unmatched =>
    rw [unmatched, last]
    split
    next verdict found => cases verdict <;> simp [found]
    next unruled => simp [unruled, short]

theorem reaches_eq_true (keeping : ∀ rule ∈ discovery.overrides, rule.keeps = true)
    {location : Location} {parts : List String} :
    discovery.reaches disk location parts = true ↔
      ¬discovery.Matched parts ∧ ∀ count < parts.length,
        ruled? disk location parts count = some .kept ∨
          ruled? disk location parts count = none ∧
            ∀ part, parts[count]? = some part → isHidden part = false := by
  simp only [reaches, List.all_eq_true, List.mem_range, Bool.not_eq_true']
  refine (forall₂_congr (@skips_eq_false disk discovery keeping location parts)).trans ?_
  simp only [forall_and, Matched, not_exists, not_and, ne_eq]

theorem isIgnored_iff_reaches (keeping : ∀ rule ∈ discovery.overrides, rule.keeps = true)
    {location : Location} {parts : List String} (solid : parts ≠ [])
    (areParts : ∀ part ∈ parts, Path.IsPart part) :
    (discovery.isIgnored (Path.ofParts parts) = false ↔
        discovery.reaches disk location parts = true) ↔
      ¬discovery.Missed disk location parts ∧ ¬discovery.Revealed disk location parts := by
  rw [isIgnored_eq_false solid areParts, reaches_eq_true keeping]
  -- Where walk and filter differ there is one side that lets the file pass and one that does not.
  constructor
  · intro agree
    constructor
    · intro missed
      obtain ⟨count, short, ruled⟩ := missed.ruled
      have reached := agree.mp ⟨missed.visible, missed.unmatched, missed.passed⟩
      rcases reached.2 count short with kept | ⟨unruled, -⟩
      · cases ruled.symm.trans kept
      · cases ruled.symm.trans unruled
    · intro revealed
      have reached := agree.mpr ⟨revealed.unmatched, fun count short => ?_⟩
      · rcases revealed.turned with ⟨part, inside, hidden⟩ | ignored
        · cases hidden.symm.trans (reached.1 part inside)
        · exact reached.2.2 ignored
      · cases ruled : ruled? disk location parts count with
        | none =>
            refine .inr ⟨rfl, fun part listed => Bool.eq_false_iff.mpr fun hidden => ?_⟩
            cases ruled.symm.trans (revealed.kept count short part listed hidden)
        | some verdict =>
            cases verdict with
            | kept => exact .inl rfl
            | ignored => exact absurd ruled (revealed.unruled count short)
  · rintro ⟨notMissed, notRevealed⟩
    constructor
    · rintro ⟨visible, unmatched, passed⟩
      refine ⟨unmatched, fun count short => ?_⟩
      cases ruled : ruled? disk location parts count with
      | none =>
          exact .inr ⟨rfl, fun part listed => visible part (List.mem_of_getElem? listed)⟩
      | some verdict =>
          cases verdict with
          | kept => exact .inl rfl
          | ignored => exact absurd ⟨unmatched, visible, passed, count, short, ruled⟩ notMissed
    · rintro ⟨unmatched, reached⟩
      by_contra turned
      refine notRevealed ⟨unmatched, fun count short ruled => ?_,
        fun count short part listed hidden => ?_, ?_⟩
      · rcases reached count short with kept | ⟨unruled, -⟩
        · cases ruled.symm.trans kept
        · cases ruled.symm.trans unruled
      · rcases reached count short with kept | ⟨-, visible⟩
        · exact kept
        · cases hidden.symm.trans (visible part listed)
      · by_contra neither
        simp only [not_or, not_exists, not_and, Bool.not_eq_true] at neither
        exact turned ⟨neither.1, unmatched, neither.2⟩

/-- The ignore file of the root is the only one on the way to a file, all its rules ignore what they
match, and none of them matches the root itself. -/
structure OnlyRootRules (disk : Disk) (discovery : Discovery) (location : Location)
    (parts : List String) : Prop where
  alone : ∀ depth < (location ++ parts).length, ∀ name ∈ ignoreFiles,
    ¬(depth = location.length ∧ name = [".gitignore"]) →
      rulesAt disk ((location ++ parts).take depth ++ name) = []
  ignoring : ∀ rule ∈ discovery.rootRules, rule.keeps = false
  below : discovery.rootRules.verdict? "" true = none

theorem findSome?_of_only {α β : Type} {f : α → Option β} {items : List α} {item : α}
    (member : item ∈ items) (others : ∀ other ∈ items, other ≠ item → f other = none) :
    items.findSome? f = f item := by
  cases value : f item with
  | none =>
      refine List.findSome?_eq_none_iff.mpr fun other inside => ?_
      by_cases same : other = item
      · exact same ▸ value
      · exact others other inside same
  | some result =>
      obtain ⟨found, first⟩ := Option.isSome_iff_exists.mp
        (List.findSome?_isSome_iff.mpr ⟨item, member, Option.isSome_of_eq_some value⟩)
      obtain ⟨other, inside, given⟩ := List.exists_of_findSome?_eq_some first
      by_cases same : other = item
      · rw [first, ← given, same, value]
      · cases (others other inside same).symm.trans given

section OnlyRootRules

variable {location : Location} {parts : List String}
  (only : discovery.OnlyRootRules disk location parts)

include only

theorem ruled?_of_onlyRootRules
    (rules : rulesAt disk (location ++ [".gitignore"]) = discovery.rootRules) {count : Nat}
    (short : count < parts.length) :
    ruled? disk location parts count =
      discovery.rootRules.verdict? (Path.ofParts (parts.take (count + 1)))
        (decide (count + 1 < parts.length)) := by
  -- All other places on the way have no rules.
  have silent {depth : Nat} (inside : depth < (location ++ parts.take (count + 1)).length)
      {name : List String} (named : name ∈ ignoreFiles)
      (other : ¬(depth = location.length ∧ name = [".gitignore"])) (path : String)
      (isDirectory : Bool) :
      (rulesAt disk ((location ++ parts.take (count + 1)).take depth ++ name)).verdict? path
        isDirectory = none := by
    have start : (location ++ parts.take (count + 1)).take depth =
        (location ++ parts).take depth := by
      rw [← List.take_length_add_append, List.take_take, Nat.min_eq_left]
      simp only [List.length_append, List.length_take] at inside
      omega
    have further : depth < (location ++ parts).length := by
      simp only [List.length_append, List.length_take] at inside ⊢
      omega
    rw [start, only.alone depth further name named other]
    rfl
  have quiet (name : List String) (named : name ∈ ignoreFiles) (other : name ≠ [".gitignore"]) :
      fileVerdict? disk (location ++ parts.take (count + 1)) (decide (count + 1 < parts.length))
        name = none := by
    refine List.findSome?_eq_none_iff.mpr fun depth inside => ?_
    exact silent (by simpa using inside) named (fun both => other both.2) _ _
  have own : fileVerdict? disk (location ++ parts.take (count + 1))
      (decide (count + 1 < parts.length)) [".gitignore"] =
        discovery.rootRules.verdict? (Path.ofParts (parts.take (count + 1)))
          (decide (count + 1 < parts.length)) := by
    have member : location.length ∈
        (List.range (location ++ parts.take (count + 1)).length).reverse := by
      simp only [List.mem_reverse, List.mem_range, List.length_append, List.length_take]
      omega
    rw [fileVerdict?, findSome?_of_only member fun depth inside other =>
      silent (by simpa using inside) (by simp [ignoreFiles]) (fun both => other both.1) _ _]
    simp [rules]
  simp only [ruled?, ignoreFiles, List.findSome?_cons, List.findSome?_nil,
    quiet [".ignore"] (by simp [ignoreFiles]) (by decide),
    quiet [".git", "info", "exclude"] (by simp [ignoreFiles]) (by decide), own]
  cases discovery.rootRules.verdict? (Path.ofParts (parts.take (count + 1)))
    (decide (count + 1 < parts.length)) <;> rfl

theorem verdictAbove?_of_onlyRootRules (solid : parts ≠ [])
    (areParts : ∀ part ∈ parts, Path.IsPart part) :
    discovery.rootRules.verdictAbove? (Path.ofParts parts) = some .ignored ↔
      ∃ count < parts.length, discovery.rootRules.verdict? (Path.ofParts (parts.take (count + 1)))
        (decide (count + 1 < parts.length)) = some .ignored := by
  have written (count : Nat) :
      Path.ofComponents (parts.take count) = Path.ofParts (parts.take count) :=
    Path.ofComponents_of_areParts fun part inside => areParts part (List.mem_of_mem_take inside)
  have positive := List.length_pos_iff.mpr solid
  simp only [IgnoreRules.verdictAbove?, Path.components_ofParts areParts, Option.or_eq_some_iff]
  constructor
  · rintro (own | ⟨-, above⟩)
    · refine ⟨parts.length - 1, by omega, ?_⟩
      rw [Nat.sub_add_cancel positive, List.take_length]
      simpa using own
    · obtain ⟨directory, inside, found⟩ := List.exists_of_findSome?_eq_some above
      rcases (Path.mem_tail_ancestors solid areParts).mp inside with rfl | ⟨count, short, rfl⟩
      · cases only.below.symm.trans found
      · rw [written] at found
        exact ⟨count, by omega, by simpa [short] using found⟩
  · rintro ⟨count, short, found⟩
    cases own : discovery.rootRules.verdict? (Path.ofParts parts) false with
    | some verdict => exact .inl (by rw [IgnoreRules.eq_ignored_of_verdict? only.ignoring own])
    | none =>
        -- The file itself is not ignored, so a directory above it is.
        have directory : count + 1 < parts.length := by
          by_contra last
          rw [List.take_of_length_le (by omega), decide_eq_false last, own] at found
          cases found
        rw [decide_eq_true directory, ← written] at found
        have inside := (Path.mem_tail_ancestors solid areParts).mpr (.inr ⟨count, directory, rfl⟩)
        obtain ⟨verdict, first⟩ : ∃ verdict, (Path.ancestors parts).tail.findSome? (fun directory =>
            discovery.rootRules.verdict? (Path.ofComponents directory) true) = some verdict :=
          Option.isSome_iff_exists.mp
            (List.findSome?_isSome_iff.mpr ⟨_, inside, Option.isSome_of_eq_some found⟩)
        obtain ⟨nearest, -, given⟩ := List.exists_of_findSome?_eq_some first
        rw [IgnoreRules.eq_ignored_of_verdict? only.ignoring given] at first
        exact .inr ⟨rfl, first⟩

theorem agrees_of_onlyRootRules
    (rules : rulesAt disk (location ++ [".gitignore"]) = discovery.rootRules) (solid : parts ≠ [])
    (areParts : ∀ part ∈ parts, Path.IsPart part) :
    ¬discovery.Missed disk location parts ∧ ¬discovery.Revealed disk location parts := by
  have above := verdictAbove?_of_onlyRootRules only solid areParts
  constructor
  · intro missed
    obtain ⟨count, short, ruled⟩ := missed.ruled
    rw [ruled?_of_onlyRootRules only rules short] at ruled
    exact missed.passed (above.mpr ⟨count, short, ruled⟩)
  · intro revealed
    rcases revealed.turned with ⟨part, inside, hidden⟩ | ignored
    · obtain ⟨count, short, rfl⟩ := List.mem_iff_getElem.mp inside
      have kept := revealed.kept count short _ (List.getElem?_eq_getElem short) hidden
      rw [ruled?_of_onlyRootRules only rules short] at kept
      cases IgnoreRules.eq_ignored_of_verdict? only.ignoring kept
    · obtain ⟨count, short, ruled⟩ := above.mp ignored
      exact revealed.unruled count short
        ((ruled?_of_onlyRootRules only rules short).trans ruled)

end OnlyRootRules

def Accounts (disk : Disk) (discovery : Discovery) (found : Discovered) (parts : List String) :
    Prop :=
  (∃ entry ∈ found.entries, entry.path = Path.ofParts parts) ∨
    let path := Path.ofComponents (discovery.root ++ parts)
    ∃ error, discovery.inspect disk path = .error error ∧
      path ++ ": " ++ error.message ∈ found.errors

theorem make_eq_ok {root patterns : List String} {maxFileSize : Nat}
    (made : make disk root patterns maxFileSize = .ok discovery) :
    discovery.root = root ∧ discovery.rootRules = rulesAt disk (root ++ [".gitignore"]) ∧
      ∀ rule ∈ discovery.overrides, rule.keeps = true := by
  obtain ⟨overrides, read, made⟩ := Table.of_bind_eq_ok made
  obtain rfl := Except.ok.inj made
  refine ⟨rfl, rfl, ?_⟩
  cases rules : IgnoreRules.ofPatterns (defaultIgnores ++ patterns) with
  | error bad =>
      rw [rules] at read
      cases read
  | ok found =>
      rw [rules] at read
      obtain rfl := Except.ok.inj read
      exact IgnoreRules.keeps_of_ofPatterns rules

theorem accounts_iff_reaches (proper : disk.Proper) (isRoot : Path.IsRoot discovery.root)
    {location : Location} (located : disk.locate discovery.root = .ok (location, .directory))
    {parts : List String} (solid : parts ≠ [])
    (names : ∀ part ∈ parts, Path.IsPart part ∧ part ≠ "..")
    (isFile : disk.isFile (discovery.root ++ parts) = true)
    (supported : isSupported (Path.ofParts parts) = true) {found : Discovered}
    (discovered : discovery.discover disk = .ok found) :
    discovery.Accounts disk found parts ↔ discovery.reaches disk location parts = true := by
  rw [← lists_iff_reaches proper isRoot located names isFile supported discovered]
  refine ⟨fun accounts => accounts.resolve_right ?_, .inl⟩
  -- An existing file of a language can be inspected.
  rintro ⟨error, failed, -⟩
  obtain ⟨content, there⟩ : ∃ content, disk.lookup (discovery.root ++ parts) = .ok content := by
    cases there : disk.lookup (discovery.root ++ parts) with
    | error error => simp [Disk.isFile, there] at isFile
    | ok content => exact ⟨content, rfl⟩
  obtain ⟨entry, inspected⟩ :=
    inspect_ok isRoot (fun part inside => (names part inside).1) solid supported there
  cases inspected.symm.trans failed

/-- The filter passes just the existing files that a walk accounts for, unless the ignore files on
the way make the difference. -/
theorem filter_agrees_iff {root patterns parts : List String} {maxFileSize : Nat}
    (made : make disk root patterns maxFileSize = .ok discovery) (proper : disk.Proper)
    (isRoot : Path.IsRoot root) (names : ∀ part ∈ parts, Path.IsPart part ∧ part ≠ "..")
    (isFile : disk.isFile (root ++ parts) = true)
    (supported : isSupported (Path.ofParts parts) = true) :
    ∃ location found, disk.locate root = .ok (location, .directory) ∧
      discovery.discover disk = .ok found ∧
      ((discovery.isIgnored (Path.ofParts parts) = false ↔ discovery.Accounts disk found parts) ↔
        ¬discovery.Missed disk location parts ∧ ¬discovery.Revealed disk location parts) ∧
      (discovery.OnlyRootRules disk location parts →
        (discovery.isIgnored (Path.ofParts parts) = false ↔
          discovery.Accounts disk found parts)) := by
  obtain ⟨rfl, rules, keeping⟩ := make_eq_ok made
  have areParts : ∀ part ∈ parts, Path.IsPart part := fun part inside => (names part inside).1
  have solid : parts ≠ [] := by
    rintro rfl
    cases supported
  obtain ⟨location, located⟩ := Disk.locate_of_isFile isRoot areParts solid isFile
  obtain ⟨found, discovered, -⟩ := discover_ok located
  have agree := @isIgnored_iff_reaches disk discovery keeping location parts solid areParts
  rw [← accounts_iff_reaches proper isRoot located solid names isFile supported discovered] at agree
  refine ⟨location, found, located, discovered, agree, fun only => agree.mpr ?_⟩
  have same : rulesAt disk (location ++ [".gitignore"]) = discovery.rootRules := by
    rw [rules, rulesAt, rulesAt, Disk.readBytes, Disk.readBytes,
      Disk.lookup_location isRoot located (by simp)]
  exact agrees_of_onlyRootRules only same solid areParts

def excepted : Disk :=
  { entries := [(["w"], .directory),
      (["w", ".gitignore"], .file (.bytes (Text.bytes "generated/\n!generated/keep.js\n"))),
      (["w", "generated"], .directory), (["w", "generated", "keep.js"], .file (.bytes [97]))] }

/-- The walk does not enter an ignored directory, so it never gets to a file that is kept there. The
filter asks about the file first and lets it pass. -/
theorem excepted_file_is_missed :
    ∃ discovery found, make excepted ["/", "w"] [] 100 = .ok discovery ∧
      discovery.discover excepted = .ok found ∧
      discovery.isIgnored "generated/keep.js" = false ∧
      ¬discovery.Accounts excepted found ["generated", "keep.js"] := by
  obtain ⟨discovery, made⟩ : ∃ discovery, make excepted ["/", "w"] [] 100 = .ok discovery :=
    ⟨_, rfl⟩
  have written : "generated/keep.js" = Path.ofParts ["generated", "keep.js"] := by decide
  have passed : discovery.isIgnored (Path.ofParts ["generated", "keep.js"]) = false := by
    have answer : (make excepted ["/", "w"] [] 100).toOption.map
        (·.isIgnored (Path.ofParts ["generated", "keep.js"])) = some false := by decide +kernel
    rw [made] at answer
    exact Option.some.inj answer
  have proper : excepted.Proper := ⟨by unfold Table.Unique; decide, by decide⟩
  obtain ⟨location, found, located, discovered, agree, -⟩ :=
    filter_agrees_iff made proper ⟨rfl, by decide⟩ (by decide) (by decide : excepted.isFile
      (["/", "w"] ++ ["generated", "keep.js"]) = true) (by decide)
  obtain rfl : location = ["w"] := by
    have place : excepted.locate ["/", "w"] = .ok (["w"], .directory) := rfl
    exact (Prod.mk.inj (Except.ok.inj (located.symm.trans place))).1
  have missed : discovery.Missed excepted ["w"] ["generated", "keep.js"] := by
    obtain ⟨visible, unmatched, unruled⟩ := (isIgnored_eq_false (by decide) (by decide)).mp passed
    exact ⟨unmatched, visible, unruled, 0, by decide, by decide +kernel⟩
  rw [written]
  refine ⟨discovery, found, made, discovered, passed, fun accounts => ?_⟩
  exact (agree.mp ⟨fun _ => accounts, fun _ => passed⟩).1 missed

end Discovery

end CodeGraph
