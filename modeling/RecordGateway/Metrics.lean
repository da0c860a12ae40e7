/-! # Metrics

The gateway counts the requests that it has answered, by method and status, and the calls that it
has made, by outcome. Beside each counter there is a histogram of durations, of which the number of
entries is kept here. Recording an event makes an entry in one after the other.
`Metrics.total` is how many entries are reported under a name with some labels, and
`Metrics.total_add` says that an entry adds one where it is reported and nothing elsewhere.
-/

namespace RecordGateway

/-- Something that is counted. -/
inductive MetricEvent where
  /-- A request with this method was answered with this status. -/
  | request (method : String) (status : Nat)
  | downstream (succeeded : Bool)
  deriving Repr, DecidableEq

namespace MetricEvent

/-- A value as it stands between the quotes of a label. A backslash that already escapes a quote or
another backslash is left alone, and `held` tells that such a one may have been met. -/
def escapeLabel (held : Bool) : List Char → List Char
  | [] => if held then ['\\', '\\'] else []
  | c :: cs =>
    if c = '\n' then '\\' :: 'n' :: escapeLabel held cs
    else if c = '"' then '\\' :: '"' :: escapeLabel false cs
    else if c = '\\' then
      if held then '\\' :: '\\' :: escapeLabel false cs else escapeLabel true cs
    else if held then '\\' :: '\\' :: c :: escapeLabel false cs
    else c :: escapeLabel false cs

def label (name value : String) : String :=
  name ++ "=\"" ++ String.ofList (escapeLabel false value.toList) ++ "\""

/-- The labels that an event is counted under. -/
def labels : MetricEvent → List (String × String)
  | .request method status => [("method", method), ("status", toString status)]
  | .downstream true => [("outcome", "ok")]
  | .downstream false => [("outcome", "error")]

end MetricEvent

inductive Instrument where
  | counter
  /-- A histogram of durations. -/
  | histogram
  deriving Repr, DecidableEq

/-- An entry that an instrument makes for an event. -/
structure Sample where
  instrument : Instrument
  event : MetricEvent
  deriving Repr, DecidableEq

/-- The entries that are made for an event, in order. -/
def MetricEvent.samples (e : MetricEvent) : List Sample := [⟨.counter, e⟩, ⟨.histogram, e⟩]

namespace Sample

/-- The metric under which entries of an instrument are reported. -/
def metric : Sample → String
  | ⟨.counter, .request ..⟩ => "gateway_requests_total"
  | ⟨.counter, .downstream _⟩ => "gateway_downstream_calls_total"
  | ⟨.histogram, .request ..⟩ => "gateway_request_duration_seconds_count"
  | ⟨.histogram, .downstream _⟩ => "gateway_downstream_duration_seconds_count"

/-- Whether an entry is reported under a metric with some labels. -/
def isOf (metric : String) (labels : List (String × String)) (s : Sample) : Bool :=
  s.metric == metric && s.event.labels == labels

/-- A series of a metric: its name with the labels. -/
def series (s : Sample) : String :=
  s.metric ++ "\x7b" ++ ",".intercalate (s.event.labels.map fun (n, v) => MetricEvent.label n v) ++
    "\x7d"

end Sample

/-- How many entries of each kind there are. -/
abbrev Metrics := List (Sample × Nat)

namespace Metrics

/-- Makes an entry. -/
def add (m : Metrics) (s : Sample) : Metrics :=
  match m with
  | [] => [(s, 1)]
  | (t, n) :: m => if s = t then (t, n + 1) :: m else (t, n) :: add m s

/-- How many entries are reported under a metric with some labels. -/
def total (m : Metrics) (metric : String) (labels : List (String × String)) : Nat :=
  match m with
  | [] => 0
  | (s, n) :: m => (if s.isOf metric labels then n else 0) + total m metric labels

theorem total_nil (metric : String) (labels : List (String × String)) :
    total [] metric labels = 0 := rfl

theorem total_cons (s : Sample) (n : Nat) (m : Metrics) (metric : String)
    (labels : List (String × String)) : total ((s, n) :: m) metric labels =
      (if s.isOf metric labels then n else 0) + m.total metric labels := rfl

theorem total_add (m : Metrics) (s : Sample) (metric : String) (labels : List (String × String)) :
    (m.add s).total metric labels =
      m.total metric labels + if s.isOf metric labels then 1 else 0 := by
  induction m with
  | nil => simp [add, total_cons, total_nil]
  | cons p m ih =>
    obtain ⟨u, n⟩ := p
    unfold add
    split
    · next h =>
      subst h
      simp only [total_cons]
      split <;> omega
    · simp only [total_cons, ih]
      omega

/-- The metrics after some events. -/
def ofEvents (es : List MetricEvent) : Metrics := (es.flatMap (·.samples)).foldl add []

/-- The lines of a report, sorted. -/
def lines (m : Metrics) : List String :=
  (m.map fun (s, n) => s.series ++ " " ++ toString n).mergeSort fun a b => !(b < a)

end Metrics

end RecordGateway
