import RecordGateway.Config.Load

/-!
# Settings by key

Each setting has a key: the name of a section and a name in it. `Config.override` takes the settings
with some keys from a configuration and the others from the default one. Entries of a document that
give just these settings are decoded to it (`Config.ofEntries?_of_gives`), whichever of the sections
are there and whichever settings they leave out.
-/

namespace RecordGateway.Config

/-! ## Keys -/

inductive Section where
  | listener
  | graphql
  | downstream
  | timeouts
  | limits
  | observability
  deriving Repr, DecidableEq

def Section.name : Section → String
  | listener => "listener"
  | graphql => "graphql"
  | downstream => "downstream"
  | timeouts => "timeouts"
  | limits => "limits"
  | observability => "observability"

inductive Key where
  | bindAddress
  | path
  | queryParam
  | bodyField
  | endpoint
  | lazyConnect
  | connectTimeoutMs
  | requestTimeoutMs
  | requestSecs
  | maxBodySize
  | logLevel
  | logFormat
  | metricsEnabled
  | metricsAddress
  deriving Repr, DecidableEq

namespace Key

/-- The section of a setting. -/
def home : Key → Section
  | bindAddress => .listener
  | path | queryParam | bodyField => .graphql
  | endpoint | lazyConnect | connectTimeoutMs | requestTimeoutMs => .downstream
  | requestSecs => .timeouts
  | maxBodySize => .limits
  | logLevel | logFormat | metricsEnabled | metricsAddress => .observability

/-- The name of a setting in its section. -/
def name : Key → String
  | bindAddress => "bind_address"
  | path => "path"
  | queryParam => "query_param"
  | bodyField => "body_field"
  | endpoint => "endpoint"
  | lazyConnect => "lazy_connect"
  | connectTimeoutMs => "connect_timeout_ms"
  | requestTimeoutMs => "request_timeout_ms"
  | requestSecs => "request_secs"
  | maxBodySize => "max_body_size"
  | logLevel => "log_level"
  | logFormat => "log_format"
  | metricsEnabled => "metrics_enabled"
  | metricsAddress => "metrics_address"

theorem eq_of_name_eq {k l : Key} (h : k.name = l.name) : k = l := by
  revert h
  cases k <;> cases l <;> decide

end Key

theorem Section.eq_of_name_eq {s t : Section} (h : s.name = t.name) : s = t := by
  revert h
  cases s <;> cases t <;> decide

def LogFormat.name : LogFormat → String
  | pretty => "pretty"
  | json => "json"

/-- The value of a setting, as a document gives it. -/
def Key.toml (c : Config) : Key → Toml
  | bindAddress => .string c.listener.bindAddress
  | path => .string c.graphql.path
  | queryParam => .string c.graphql.queryParam
  | bodyField => .string c.graphql.bodyField
  | endpoint => .string c.downstream.endpoint
  | lazyConnect => .boolean c.downstream.lazyConnect
  | connectTimeoutMs => .integer c.downstream.connectTimeoutMs.toNat
  | requestTimeoutMs => .integer c.downstream.requestTimeoutMs.toNat
  | requestSecs => .integer c.timeouts.requestSecs.toNat
  | maxBodySize => .integer c.limits.maxBodySize.toNat
  | logLevel => .string c.observability.logLevel
  | logFormat => .string c.observability.logFormat.name
  | metricsEnabled => .boolean c.observability.metricsEnabled
  | metricsAddress => .string c.observability.metricsAddress

/-! ## Settings in place of the default ones -/

/-- The settings with some keys, and the default ones for all others. -/
def override (c : Config) (named : Key → Bool) : Config :=
  let source (k : Key) : Config := if named k then c else {}
  { listener := { bindAddress := (source .bindAddress).listener.bindAddress }
    graphql := {
      path := (source .path).graphql.path
      queryParam := (source .queryParam).graphql.queryParam
      bodyField := (source .bodyField).graphql.bodyField }
    downstream := {
      endpoint := (source .endpoint).downstream.endpoint
      lazyConnect := (source .lazyConnect).downstream.lazyConnect
      connectTimeoutMs := (source .connectTimeoutMs).downstream.connectTimeoutMs
      requestTimeoutMs := (source .requestTimeoutMs).downstream.requestTimeoutMs }
    timeouts := { requestSecs := (source .requestSecs).timeouts.requestSecs }
    limits := { maxBodySize := (source .maxBodySize).limits.maxBodySize }
    observability := {
      logLevel := (source .logLevel).observability.logLevel
      logFormat := (source .logFormat).observability.logFormat
      metricsEnabled := (source .metricsEnabled).observability.metricsEnabled
      metricsAddress := (source .metricsAddress).observability.metricsAddress } }

theorem override_all (c : Config) : c.override (fun _ => true) = c := rfl

/-! ## Decoding -/

section

variable {kvs es : List (String × Toml)} {c : Config} {named : Key → Bool} {s : Section}

/-- A table has just the named settings of a section, with the values of a configuration. -/
def HasSettings (kvs : List (String × Toml)) (c : Config) (named : Key → Bool) (s : Section) :
    Prop :=
  ∀ k : Key, k.home = s → kvs.lookup k.name = if named k then some (k.toml c) else none

/-- The entries of a document give just the named settings: a section with some of them is there,
and is a table that has them. -/
def Gives (es : List (String × Toml)) (c : Config) (named : Key → Bool) : Prop :=
  ∀ s : Section, (es.lookup s.name = none ∧ ∀ k : Key, k.home = s → named k = false) ∨
    ∃ kvs, es.lookup s.name = some (.table kvs) ∧ HasSettings kvs c named s

/-- A setting of a section is read from its table, or is the default one. -/
theorem HasSettings.read_eq (h : HasSettings kvs c named s) {k : Key} (hk : k.home = s)
    (place : Nat) {reader : Toml → Option α} (get : Config → α)
    (hread : reader (k.toml c) = some (get c)) :
    (Settings.named kvs).read place k.name reader (get {}) =
      some (get (if named k then c else {})) := by
  have hlookup := h k hk
  cases hnamed : named k with
  | false =>
    simp only [hnamed, Bool.false_eq_true, ↓reduceIte] at hlookup
    simp only [Settings.read, Settings.get?, hlookup, Bool.false_eq_true, ↓reduceIte]
  | true =>
    simp only [hnamed, ↓reduceIte] at hlookup
    simp only [Settings.read, Settings.get?, hlookup, hread, ↓reduceIte]

/-- A section is read from its table, or from an empty one if it is left out. -/
theorem Gives.section?_eq (h : Gives es c named) (s : Section) {reader : Settings → Option α}
    {default x : α} (hempty : reader (.named []) = some default)
    (hread : ∀ kvs, HasSettings kvs c named s → reader (.named kvs) = some x) :
    Config.section? es s.name reader default = some x := by
  rcases h s with ⟨habsent, hnone⟩ | ⟨kvs, hkvs, hs⟩
  · have hnil : HasSettings [] c named s := by
      intro k hk
      simp [hnone k hk]
    rw [section?, habsent, ← hread [] hnil, hempty]
  · simp only [section?, hkvs, Settings.ofToml?, Option.bind_some]
    exact hread kvs hs

theorem count?_toNat (n : UInt64) : count? (.integer n.toNat) = some n := by
  simp [count?]

theorem logFormat?_name (f : LogFormat) : logFormat? (.string f.name) = some f := by
  cases f <;> rfl

/-! ### Each section -/

theorem HasSettings.listener (h : HasSettings kvs c named .listener) :
    listener? (.named kvs) = some (c.override named).listener := by
  have hbind : (Settings.named kvs).read 0 "bind_address" text? ({} : Listener).bindAddress = _ :=
    h.read_eq (k := .bindAddress) rfl 0 (·.listener.bindAddress) rfl
  simp only [listener?, hbind]
  rfl

theorem HasSettings.graphql (h : HasSettings kvs c named .graphql) :
    graphql? (.named kvs) = some (c.override named).graphql := by
  have hpath : (Settings.named kvs).read 0 "path" text? ({} : Graphql).path = _ :=
    h.read_eq (k := .path) rfl 0 (·.graphql.path) rfl
  have hparam : (Settings.named kvs).read 1 "query_param" text? ({} : Graphql).queryParam = _ :=
    h.read_eq (k := .queryParam) rfl 1 (·.graphql.queryParam) rfl
  have hfield : (Settings.named kvs).read 2 "body_field" text? ({} : Graphql).bodyField = _ :=
    h.read_eq (k := .bodyField) rfl 2 (·.graphql.bodyField) rfl
  simp only [graphql?, hpath, hparam, hfield]
  rfl

theorem HasSettings.downstream (h : HasSettings kvs c named .downstream) :
    downstream? (.named kvs) = some (c.override named).downstream := by
  have hendpoint : (Settings.named kvs).read 0 "endpoint" text? ({} : Downstream).endpoint = _ :=
    h.read_eq (k := .endpoint) rfl 0 (·.downstream.endpoint) rfl
  have hlazy : (Settings.named kvs).read 1 "lazy_connect" flag? ({} : Downstream).lazyConnect = _ :=
    h.read_eq (k := .lazyConnect) rfl 1 (·.downstream.lazyConnect) rfl
  have hconnect : (Settings.named kvs).read 2 "connect_timeout_ms" count?
      ({} : Downstream).connectTimeoutMs = _ :=
    h.read_eq (k := .connectTimeoutMs) rfl 2 (·.downstream.connectTimeoutMs) (count?_toNat _)
  have hrequest : (Settings.named kvs).read 3 "request_timeout_ms" count?
      ({} : Downstream).requestTimeoutMs = _ :=
    h.read_eq (k := .requestTimeoutMs) rfl 3 (·.downstream.requestTimeoutMs) (count?_toNat _)
  simp only [downstream?, hendpoint, hlazy, hconnect, hrequest]
  rfl

theorem HasSettings.timeouts (h : HasSettings kvs c named .timeouts) :
    timeouts? (.named kvs) = some (c.override named).timeouts := by
  have hsecs : (Settings.named kvs).read 0 "request_secs" count? ({} : Timeouts).requestSecs = _ :=
    h.read_eq (k := .requestSecs) rfl 0 (·.timeouts.requestSecs) (count?_toNat _)
  simp only [timeouts?, hsecs]
  rfl

theorem HasSettings.limits (h : HasSettings kvs c named .limits) :
    limits? (.named kvs) = some (c.override named).limits := by
  have hsize : (Settings.named kvs).read 0 "max_body_size" count? ({} : Limits).maxBodySize = _ :=
    h.read_eq (k := .maxBodySize) rfl 0 (·.limits.maxBodySize) (count?_toNat _)
  simp only [limits?, hsize]
  rfl

theorem HasSettings.observability (h : HasSettings kvs c named .observability) :
    observability? (.named kvs) = some (c.override named).observability := by
  have hlevel : (Settings.named kvs).read 0 "log_level" text? ({} : Observability).logLevel = _ :=
    h.read_eq (k := .logLevel) rfl 0 (·.observability.logLevel) rfl
  have hformat : (Settings.named kvs).read 1 "log_format" logFormat?
      ({} : Observability).logFormat = _ :=
    h.read_eq (k := .logFormat) rfl 1 (·.observability.logFormat) (logFormat?_name _)
  have henabled : (Settings.named kvs).read 2 "metrics_enabled" flag?
      ({} : Observability).metricsEnabled = _ :=
    h.read_eq (k := .metricsEnabled) rfl 2 (·.observability.metricsEnabled) rfl
  have haddress : (Settings.named kvs).read 3 "metrics_address" text?
      ({} : Observability).metricsAddress = _ :=
    h.read_eq (k := .metricsAddress) rfl 3 (·.observability.metricsAddress) rfl
  simp only [observability?, hlevel, hformat, henabled, haddress]
  rfl

/-- Entries that give some settings are decoded to these, and to the default ones for all others. -/
theorem ofEntries?_of_gives (h : Gives es c named) :
    ofEntries? es = some (c.override named) := by
  have hlistener : section? es "listener" listener? {} = _ :=
    h.section?_eq .listener rfl fun _ => HasSettings.listener
  have hgraphql : section? es "graphql" graphql? {} = _ :=
    h.section?_eq .graphql rfl fun _ => HasSettings.graphql
  have hdownstream : section? es "downstream" downstream? {} = _ :=
    h.section?_eq .downstream rfl fun _ => HasSettings.downstream
  have htimeouts : section? es "timeouts" timeouts? {} = _ :=
    h.section?_eq .timeouts rfl fun _ => HasSettings.timeouts
  have hlimits : section? es "limits" limits? {} = _ :=
    h.section?_eq .limits rfl fun _ => HasSettings.limits
  have hobservability : section? es "observability" observability? {} = _ :=
    h.section?_eq .observability rfl fun _ => HasSettings.observability
  simp only [ofEntries?, hlistener, hgraphql, hdownstream, htimeouts, hlimits, hobservability]
  rfl

end

end RecordGateway.Config
