import CodeGraph.Package.Lockfile
import CodeGraph.Proofs.Text

/-!
Keys of packages in pnpm lockfiles: in whatever layout a key is written, the name and the version
that it was written from are read back. What the version was resolved for stands behind it and may
hold all marks that keys are cut at.
-/

set_option autoImplicit false

namespace CodeGraph.Lockfile

structure IsPlainName (name : List Char) : Prop where
  solid : name ≠ []
  slash : '/' ∉ name
  sign : '@' ∉ name
  bracket : '(' ∉ name

inductive IsPackageName : List Char → Prop
  | alone {name : List Char} (plain : IsPlainName name) : IsPackageName name
  | inScope {scope name : List Char} (plain : IsPlainName scope) (plain' : IsPlainName name) :
      IsPackageName ('@' :: scope ++ '/' :: name)

structure IsPackageVersion (version : List Char) : Prop where
  solid : version ≠ []
  bracket : '(' ∉ version
  underscore : '_' ∉ version

/-- The layouts of lockfile versions 5, 6 and 9: `/name/version`, `/name@version` and
`name@version`. -/
inductive KeyLayout where
  | slashes
  | slashAndSign
  | signOnly
deriving DecidableEq

namespace KeyLayout

def lead : KeyLayout → String
  | .slashes | .slashAndSign => "/"
  | .signOnly => ""

def mark : KeyLayout → Char
  | .slashes => '/'
  | .slashAndSign | .signOnly => '@'

def peerSuffix : KeyLayout → String → String
  | .slashes, peers => "_" ++ peers
  | .slashAndSign, peers | .signOnly, peers => "(" ++ peers ++ ")"

def key (layout : KeyLayout) (name version : String) (peers : Option String) : String :=
  layout.lead ++ name ++ layout.mark.toString ++ version ++ (peers.map layout.peerSuffix).getD ""

end KeyLayout

/-- What may stand behind a version: nothing, or a text that one of the marks for peers starts. -/
def StartsPeers (tail : List Char) : Prop :=
  ∀ c ∈ tail.head?, c = '(' ∨ c = '_'

variable {name version tail before : List Char} {mark : Char}

theorem splitAtMark_append_cons (slash : '/' ∉ before) (sign : '@' ∉ before)
    (isMark : mark = '/' ∨ mark = '@') (after : List Char) :
    splitAtMark (before ++ mark :: after) = some (before, after) := by
  induction before with
  | nil => rcases isMark with rfl | rfl <;> rfl
  | cons c rest ih =>
      rw [List.mem_cons, not_or] at slash sign
      simp [splitAtMark, Ne.symm slash.1, Ne.symm sign.1, ih slash.2 sign.2]

theorem StartsPeers.takeWhile (starts : StartsPeers tail) :
    StartsPeers (tail.takeWhile (· != '(')) := by
  cases tail with
  | nil => exact starts
  | cons c rest =>
      rcases starts c rfl with rfl | rfl <;> simp [StartsPeers]

theorem StartsPeers.withoutPeers_append (starts : StartsPeers tail)
    (bracket : '(' ∉ version) (underscore : '_' ∉ version) :
    withoutPeers (version ++ tail) = version := by
  have clean : ∀ c ∈ version, (c != '(' && c != '_') = true := by
    intro c inside
    rw [Bool.and_eq_true, bne_iff_ne, bne_iff_ne]
    constructor
    · rintro rfl
      exact bracket inside
    · rintro rfl
      exact underscore inside
  have stops : tail.takeWhile (fun c => c != '(' && c != '_') = [] := by
    cases tail with
    | nil => rfl
    | cons c rest => rcases starts c rfl with rfl | rfl <;> rfl
  rw [withoutPeers, List.takeWhile_append_of_pos clean, stops, List.append_nil]

theorem IsPackageName.bracket (isName : IsPackageName name) : '(' ∉ name := by
  cases isName with
  | alone plain => exact plain.bracket
  | inScope plain plain' => simp [plain.bracket, plain'.bracket]

theorem IsPackageName.solid (isName : IsPackageName name) : name ≠ [] := by
  cases isName with
  | alone plain => exact plain.solid
  | inScope => simp

theorem IsPackageName.head (isName : IsPackageName name) : ∀ c ∈ name.head?, c ≠ '/' := by
  intro c first
  cases isName with
  | alone plain =>
      rintro rfl
      exact plain.slash (List.mem_of_mem_head? first)
  | inScope =>
      simp only [List.cons_append, List.head?_cons, Option.mem_some_iff] at first
      simp [← first]

def splitScope (key : List Char) : Option (List Char × List Char) :=
  if key.head? == some '@' then
    (Text.splitOnce '/' key).map (fun parts => (parts.1 ++ ['/'], parts.2))
  else some ([], key)

theorem pnpmKey?_eq (key : String) :
    pnpmKey? key =
      (splitScope ((Text.trimStartBy (· == '/') key.toList).takeWhile (· != '('))).bind
        fun (scope, rest) => (splitAtMark rest).bind fun (base, version) =>
          if (scope ++ base).isEmpty || (withoutPeers version).isEmpty then none
          else some (String.ofList (scope ++ base), String.ofList (withoutPeers version)) := by
  simp only [pnpmKey?, splitScope]
  split <;> rfl

/-- Behind a scope, the first mark ends the name. -/
theorem IsPackageName.split (isName : IsPackageName name) (isMark : mark = '/' ∨ mark = '@')
    (after : List Char) :
    ∃ scope rest base, splitScope (name ++ mark :: after) = some (scope, rest) ∧
      splitAtMark rest = some (base, after) ∧ scope ++ base = name := by
  cases isName with
  | alone plain =>
      refine ⟨[], name ++ mark :: after, name, ?_,
        splitAtMark_append_cons plain.slash plain.sign isMark after, rfl⟩
      obtain ⟨first, others, rfl⟩ := List.exists_cons_of_ne_nil plain.solid
      have other : first ≠ '@' := by
        rintro rfl
        exact plain.sign (List.mem_cons_self ..)
      simp [splitScope, other]
  | @inScope scope base plain plain' =>
      refine ⟨'@' :: scope ++ ['/'], base ++ mark :: after, base, ?_,
        splitAtMark_append_cons plain'.slash plain'.sign isMark after, by simp⟩
      have clean : '/' ∉ '@' :: scope := by simpa using plain.slash
      have apart : '@' :: scope ++ '/' :: base ++ mark :: after =
          '@' :: scope ++ '/' :: (base ++ mark :: after) := by simp
      rw [apart, splitScope, Text.splitOnce_append_cons clean]
      rfl

theorem pnpmKey?_ofList {lead : List Char} (leads : ∀ c ∈ lead, c = '/')
    (isName : IsPackageName name) (isMark : mark = '/' ∨ mark = '@')
    (isVersion : IsPackageVersion version) (starts : StartsPeers tail) :
    pnpmKey? (String.ofList (lead ++ (name ++ mark :: (version ++ tail)))) =
      some (String.ofList name, String.ofList version) := by
  have trimmed : Text.trimStartBy (· == '/') (lead ++ (name ++ mark :: (version ++ tail))) =
      name ++ mark :: (version ++ tail) := by
    rw [Text.trimStartBy_append_of_drop (by simpa using leads), Text.trimStartBy_of_head]
    intro c first
    obtain ⟨d, others, rfl⟩ := List.exists_cons_of_ne_nil isName.solid
    simpa using isName.head c first
  -- Brackets before the peers would cut the key inside its name or version.
  have cut : (name ++ mark :: (version ++ tail)).takeWhile (· != '(') =
      name ++ mark :: (version ++ tail.takeWhile (· != '(')) := by
    have named : ∀ c ∈ name ++ mark :: version, (c != '(') = true := by
      intro c inside
      rw [bne_iff_ne]
      rintro rfl
      rcases List.mem_append.mp inside with inside | inside
      · exact isName.bracket inside
      · rcases List.mem_cons.mp inside with rfl | inside
        · rcases isMark with same | same <;> cases same
        · exact isVersion.bracket inside
    have whole (rest : List Char) :
        name ++ mark :: (version ++ rest) = (name ++ mark :: version) ++ rest := by simp
    rw [whole, List.takeWhile_append_of_pos named, ← whole]
  obtain ⟨scope, rest, base, found, split, rfl⟩ :=
    isName.split isMark (version ++ tail.takeWhile (· != '('))
  have pure := starts.takeWhile.withoutPeers_append isVersion.bracket isVersion.underscore
  have solid : ((scope ++ base).isEmpty || version.isEmpty) = false := by
    simpa [isVersion.solid] using isName.solid
  rw [pnpmKey?_eq, String.toList_ofList, trimmed, cut, found, Option.bind_some]
  dsimp only
  rw [split, Option.bind_some]
  dsimp only
  rw [pure, solid, if_neg Bool.false_ne_true]

/-- A key is read as the name and the version that it was written from, in every layout and for
every text of peers. -/
theorem key_is_read_back (layout : KeyLayout) (name version : String) (peers : Option String)
    (isName : IsPackageName name.toList) (isVersion : IsPackageVersion version.toList) :
    pnpmKey? (layout.key name version peers) = some (name, version) := by
  have leads : ∀ c ∈ layout.lead.toList, c = '/' := by
    cases layout <;> simp [KeyLayout.lead]
  have isMark : layout.mark = '/' ∨ layout.mark = '@' := by
    cases layout <;> decide
  have starts : StartsPeers ((peers.map layout.peerSuffix).getD "").toList := by
    cases peers with
    | none => simp [StartsPeers]
    | some peers => cases layout <;> simp [StartsPeers, KeyLayout.peerSuffix]
  have written : layout.key name version peers = String.ofList (layout.lead.toList ++
      (name.toList ++ layout.mark :: (version.toList ++
        ((peers.map layout.peerSuffix).getD "").toList))) := by
    rw [← String.toList_inj]
    simp [KeyLayout.key]
  rw [written, pnpmKey?_ofList leads isName isMark isVersion starts, String.ofList_toList,
    String.ofList_toList]

theorem key_with_scoped_peers_is_read_back :
    IsPackageName "@s_c/p_n".toList ∧ IsPackageVersion "1.0.0-rc/1@x".toList ∧
      pnpmKey? "/@s_c/p_n/1.0.0-rc/1@x_(@a/b_c@2)" = some ("@s_c/p_n", "1.0.0-rc/1@x") := by
  have plain (name : String) (solid : name.toList ≠ []) (slash : '/' ∉ name.toList)
      (sign : '@' ∉ name.toList) (bracket : '(' ∉ name.toList) : IsPlainName name.toList :=
    ⟨solid, slash, sign, bracket⟩
  have isName : IsPackageName "@s_c/p_n".toList :=
    .inScope (plain "s_c" (by decide) (by decide) (by decide) (by decide))
      (plain "p_n" (by decide) (by decide) (by decide) (by decide))
  have isVersion : IsPackageVersion "1.0.0-rc/1@x".toList :=
    ⟨by decide, by decide, by decide⟩
  exact ⟨isName, isVersion,
    key_is_read_back .slashes "@s_c/p_n" "1.0.0-rc/1@x" (some "(@a/b_c@2)") isName isVersion⟩

end CodeGraph.Lockfile
