import CodeGraph.Config
import CodeGraph.Proofs.Text

/-!
Where the settings come from, and whether a configuration that passes its check can be run. The
check leaves one setting out: a queue whose tick is zero cannot be started, and only a file can ask
for one.
-/

set_option autoImplicit false

namespace CodeGraph

theorem Toml.withDefault_natural_eq_zero_iff {limit default number : Nat} {field : Option Toml}
    (positive : 0 < default)
    (read : Toml.withDefault default (Toml.natural? limit) field = some number) :
    number = 0 ↔ field = some (.integer 0) := by
  cases field with
  | none =>
      rw [← Option.some.inj read]
      exact iff_of_false (Nat.ne_of_gt positive) nofun
  | some value =>
      cases value with
      | integer value =>
          simp only [Toml.withDefault, Toml.natural?, Option.ite_none_right_eq_some,
            Option.some.injEq, Bool.and_eq_true, decide_eq_true_eq] at read
          simp only [Option.some.injEq, Toml.integer.injEq]
          omega
      | string | other | boolean | array | table => cases read

namespace Config

def queueTick? (settings : Toml) : Option Toml := do
  match ← settings.fields? ["concurrency", "max_retries", "retry_delay_ms", "tick_ms",
      "empty_output"] with
  | [_, _, _, tick, _] => tick
  | _ => none

def givenTick? (content : Option String) : Option Toml := do
  match ← (← Toml.read? (← content)).fields? ["workspace", "queue", "storage", "embedding",
      "search"] with
  | [_, queue, _, _, _] => queue.bind queueTick?
  | _ => none

theorem queue?_tick_eq_zero_iff {value : Toml} {settings : QueueSettings}
    (read : queue? value = some settings) :
    settings.tick = 0 ↔ queueTick? value = some (.integer 0) := by
  obtain ⟨fields, found, read⟩ := Option.bind_eq_some_iff.mp read
  unfold queueTick?
  rw [found, Option.bind_eq_bind, Option.bind_some]
  split at read
  next tick _ =>
    simp only [Option.bind_eq_bind, Option.bind_eq_some_iff, Option.pure_def,
      Option.some.injEq] at read
    obtain ⟨_, -, _, -, _, -, number, given, _, -, rfl⟩ := read
    exact Toml.withDefault_natural_eq_zero_iff (by decide) given
  next => cases read

theorem tick_eq_zero_iff {content : Option String} {file : Config}
    (parsed : parse content = .ok file) :
    file.queue.tick = 0 ↔ givenTick? content = some (.integer 0) := by
  cases content with
  | none =>
      cases parsed
      exact iff_of_false (by decide) (by simp [givenTick?])
  | some content =>
      simp only [parse] at parsed
      split at parsed
      next config read =>
        cases parsed
        obtain ⟨value, tree, config⟩ := Option.bind_eq_some_iff.mp read
        obtain ⟨fields, found, config⟩ := Option.bind_eq_some_iff.mp config
        simp only [givenTick?, Option.bind_eq_bind, Option.bind_some, tree, found]
        split at config
        next queue _ _ _ =>
          simp only [Option.bind_eq_bind, Option.bind_eq_some_iff, Option.pure_def,
            Option.some.injEq] at config
          obtain ⟨_, -, settings, given, _, -, _, -, _, -, rfl⟩ := config
          cases queue with
          | none =>
              -- Without a section of the queue the tick is that of a queue by default.
              cases given
              exact iff_of_false (Nat.succ_ne_zero 999) (by simp)
          | some queue => exact queue?_tick_eq_zero_iff given
        next => cases config
      next => cases parsed

structure Override where
  Value : Type
  name : String
  read? : String → Option Value
  setting : Config → Value

def overrides : List Override :=
  [⟨_, "CODEWEAVE_ROOT", some, fun config => config.workspace.root⟩,
    ⟨_, "CODEWEAVE_IGNORE", some ∘ patterns, fun config => config.workspace.ignore⟩,
    ⟨_, "CODEWEAVE_MAX_FILE_SIZE", number? wordLimit, fun config => config.workspace.maxFileSize⟩,
    ⟨_, "CODEWEAVE_QUEUE_CONCURRENCY", number? wordLimit, fun config => config.queue.concurrency⟩,
    ⟨_, "CODEWEAVE_QUEUE_MAX_RETRIES", number? shortLimit, fun config => config.queue.maxRetries⟩,
    ⟨_, "CODEWEAVE_QUEUE_RETRY_DELAY_MS", number? wordLimit,
      fun config => config.queue.retryDelay⟩,
    ⟨_, "CODEWEAVE_QUEUE_EMPTY_OUTPUT", EmptyOutputPolicy.ofName?,
      fun config => config.queue.emptyOutput⟩,
    ⟨_, "CODEWEAVE_SQLITE_PATH", some, fun config => config.storage.databasePath⟩,
    ⟨_, "CODEWEAVE_VECTOR_ENABLED", truth?, fun config => config.storage.vectorEnabled⟩,
    ⟨_, "CODEWEAVE_VECTOR_BACKEND", VectorBackend.ofName?,
      fun config => config.storage.vectorBackend⟩,
    ⟨_, "CODEWEAVE_QDRANT_URL", some ∘ some, fun config => config.storage.vectorServer⟩,
    ⟨_, "CODEWEAVE_EMBEDDING_PROVIDER", EmbeddingProvider.ofName?,
      fun config => config.embedding.provider⟩,
    ⟨_, "CODEWEAVE_EMBEDDING_BASE_URL", some, fun config => config.embedding.baseUrl⟩,
    ⟨_, "CODEWEAVE_EMBEDDING_MODEL", some, fun config => config.embedding.model⟩,
    ⟨_, "CODEWEAVE_EMBEDDING_BATCH_SIZE", number? wordLimit,
      fun config => config.embedding.batchSize⟩,
    ⟨_, "CODEWEAVE_SEARCH_LIMIT", number? wordLimit, fun config => config.search.limit⟩,
    ⟨_, "CODEWEAVE_SEARCH_DEPTH", number? wordLimit, fun config => config.search.depth⟩]

theorem setting_withEnvironment (config : Config) (environment : Environment) :
    ∀ o ∈ overrides, o.setting (config.withEnvironment environment) =
      override environment o.name o.read? (o.setting config) := by
  simp only [overrides, List.forall_mem_cons, withEnvironment, true_and]
  exact List.forall_mem_nil _

theorem override_of_unread {Value : Type} {environment : Environment} {name text : String}
    {read? : String → Option Value} (given : environment.lookup name = some text)
    (unread : read? text = none) (setting : Value) :
    override environment name read? setting = setting := by
  rw [override, given, Option.bind_some, unread, Option.getD_none]

theorem tick_withEnvironment (config : Config) (environment : Environment) :
    (config.withEnvironment environment).queue.tick = config.queue.tick :=
  rfl

theorem exists_parse_of_load {content : Option String} {environment : Environment}
    {config : Config} (loaded : load content environment = .ok config) :
    ∃ file, parse content = .ok file ∧ file.withEnvironment environment = config := by
  unfold load at loaded
  cases parsed : parse content with
  | error problem =>
      rw [parsed] at loaded
      cases loaded
  | ok file =>
      rw [parsed] at loaded
      exact ⟨file, rfl, Except.ok.inj loaded⟩

structure Checked (config : Config) : Prop where
  concurrency : 1 ≤ config.queue.concurrency
  batchSize : 1 ≤ config.embedding.batchSize
  dimensions : config.embedding.provider = .hash → 1 ≤ config.embedding.dimensions
  vectorServer : config.storage.vectorEnabled = true → config.storage.vectorBackend = .server →
    ∃ url, config.storage.vectorServer = some url ∧ ∃ c ∈ url.toList, Text.isBlank c = false

/-- What the pipeline relies on. The queue cannot be started with a timer that is always due. -/
structure Runnable (config : Config) : Prop extends Checked config where
  tick : 1 ≤ config.queue.tick

theorem isBlankUrl_eq_false_iff {url : Option String} :
    isBlankUrl url = false ↔
      ∃ text, url = some text ∧ ∃ c ∈ text.toList, Text.isBlank c = false := by
  cases url with
  | none => simp [isBlankUrl]
  | some text =>
      simp [isBlankUrl, Text.trim, Text.trimBy_eq_nil_iff]

theorem problem?_eq_none_iff {config : Config} : config.problem? = none ↔ config.Checked := by
  unfold problem?
  constructor
  · intro accepted
    split_ifs at accepted with concurrency batchSize dimensions vectorServer
    refine ⟨by omega, by omega, fun hashed => ?_, fun enabled server => ?_⟩
    · exact Nat.pos_of_ne_zero fun zero => dimensions ⟨hashed, zero⟩
    · exact isBlankUrl_eq_false_iff.mp (by simpa [enabled, server] using vectorServer)
  · intro checked
    have reachable : ¬(config.storage.vectorEnabled = true ∧
        config.storage.vectorBackend = .server ∧
        isBlankUrl config.storage.vectorServer = true) := by
      rintro ⟨enabled, server, blank⟩
      simp [isBlankUrl_eq_false_iff.mpr (checked.vectorServer enabled server)] at blank
    rw [if_neg (Nat.ne_of_gt checked.concurrency), if_neg (Nat.ne_of_gt checked.batchSize),
      if_neg fun ⟨hashed, zero⟩ => Nat.ne_of_gt (checked.dimensions hashed) zero, if_neg reachable]

/-- A configuration that passes its check can be run unless its file asks for a tick of zero, and a
variable that cannot be read leaves its setting as the file has it. -/
theorem accepted_is_runnable_iff {content : Option String} {environment : Environment}
    {config : Config} (loaded : load content environment = .ok config) :
    (config.problem? = none ↔ config.Checked) ∧
    (config.Runnable ↔ config.problem? = none ∧ givenTick? content ≠ some (.integer 0)) ∧
    ∃ file, parse content = .ok file ∧ ∀ o ∈ overrides, ∀ text,
      environment.lookup o.name = some text → o.read? text = none →
        o.setting config = o.setting file := by
  obtain ⟨file, parsed, rfl⟩ := exists_parse_of_load loaded
  refine ⟨problem?_eq_none_iff, ?_, file, parsed, ?_⟩
  · -- No variable sets the tick, so what is loaded has that of the file.
    have ticks := tick_eq_zero_iff parsed
    rw [← tick_withEnvironment file environment] at ticks
    rw [problem?_eq_none_iff, Ne, ← ticks]
    exact ⟨fun runnable => ⟨runnable.toChecked, Nat.ne_of_gt runnable.tick⟩,
      fun ⟨checked, ticking⟩ => ⟨checked, Nat.pos_of_ne_zero ticking⟩⟩
  · intro o known text given unread
    rw [setting_withEnvironment file environment o known, override_of_unread given unread]

theorem zero_tick_is_accepted :
    let content := some "[queue]\ntick_ms = 0\n"
    let environment := [("CODEWEAVE_QUEUE_CONCURRENCY", "lots")]
    let config : Config := { queue := { tick := 0 } }
    load content environment = .ok config ∧ config.problem? = none ∧ ¬config.Runnable ∧
      ∃ file, parse content = .ok file ∧ config.queue.concurrency = file.queue.concurrency := by
  intro content environment config
  have loaded : load content environment = .ok config := by decide +kernel
  obtain ⟨-, -, file, parsed, kept⟩ := accepted_is_runnable_iff loaded
  refine ⟨loaded, by decide, fun runnable => absurd runnable.tick (by decide), file, parsed, ?_⟩
  exact kept ⟨_, "CODEWEAVE_QUEUE_CONCURRENCY", number? wordLimit,
    fun config => config.queue.concurrency⟩ (by simp [overrides]) "lots" rfl (by decide)

end Config

end CodeGraph
