import Webrockets.Message
import Webrockets.Publisher
import Webrockets.Library.Fallible

/-! The configuration of a broker (`BrokerConfig::from_py`).

A dictionary has a `type`, and under each key that the type knows a text or nothing, in which case
there is a default. The queue of AMQP may also be `None`, as documented. `from_py` reads every text
it finds under a key that it knows, and `None` is no text: `from_py_documented`. -/
namespace Webrockets
open Fallible

/-! ### Dictionaries -/

/-- What a key has. A `str` with a lone surrogate is not a `String`. -/
inductive DictValue where
  | str (s : String)
  | surrogateStr
  | none
  | other
  deriving DecidableEq, Repr

/-- `get_item`. -/
abbrev PyDict := String → Option DictValue

namespace DictValue

def isStr : DictValue → Bool
  | .str _ | .surrogateStr => true
  | .none | .other => false

def text? : DictValue → Option String
  | .str s => some s
  | _ => Option.none

end DictValue

/-! ### The configuration -/

structure RedisConfig where
  url : String
  channel : String
  deriving DecidableEq, Repr

structure AmqpConfig where
  url : String
  exchange : String
  queue : Option String
  routingKey : String
  deriving DecidableEq, Repr

inductive BrokerConfig where
  | redis (c : RedisConfig)
  | amqp (c : AmqpConfig)
  deriving DecidableEq, Repr

def typeRequired : PyErr := .valueError "broker 'type' is required"

def unknownType (brokerType : String) : PyErr :=
  .valueError ("unknown broker type: " ++ brokerType ++ ". Supported: redis, amqp")

/-- The error for what is not a `str` is a parameter. -/
def DictValue.extract (castError : DictValue → PyErr) : DictValue → Except PyErr String
  | .str s => .ok s
  | .surrogateStr => .error .unicodeEncodeError
  | v => .error (castError v)

/-- `dict.get_item(key)?.map(|v| v.extract()).transpose()?`. -/
def getStr (castError : DictValue → PyErr) (dict : PyDict) (key : String) :
    Except PyErr (Option String) :=
  match dict key with
  | some v => (v.extract castError).map some
  | none => .ok none

def getOr (castError : DictValue → PyErr) (dict : PyDict) (key default : String) :
    Except PyErr String :=
  (getStr castError dict key).map (·.getD default)

def getType (castError : DictValue → PyErr) (dict : PyDict) : Except PyErr String :=
  match dict "type" with
  | some v => v.extract castError
  | none => .error typeRequired

def BrokerConfig.fromPy (castError : DictValue → PyErr) (dict : PyDict) :
    Except PyErr BrokerConfig := do
  let brokerType ← getType castError dict
  if brokerType = "redis" then
    let url ← getOr castError dict "url" "redis://localhost:6379"
    let channel ← getOr castError dict "channel" "ws_broadcast"
    return .redis ⟨url, channel⟩
  else if brokerType = "amqp" then
    let url ← getOr castError dict "url" "amqp://localhost:5672"
    let exchange ← getOr castError dict "exchange" "ws_broadcast"
    let queue ← getStr castError dict "queue"
    let routingKey ← getOr castError dict "routing_key" "#"
    return .amqp ⟨url, exchange, queue, routingKey⟩
  else .error (unknownType brokerType)

/-! ### What is documented -/

namespace Backend

def name : Backend → String
  | .redis => "redis"
  | .amqp => "amqp"

/-- The keys that have a default. -/
def texts : Backend → List String
  | .redis => ["url", "channel"]
  | .amqp => ["url", "exchange", "routing_key"]

def keys : Backend → List String
  | .redis => ["url", "channel"]
  | .amqp => ["url", "exchange", "queue", "routing_key"]

end Backend

structure Documented (b : Backend) (dict : PyDict) : Prop where
  type : dict "type" = some (.str b.name)
  texts : ∀ key ∈ b.texts, ∀ v, dict key = some v → v.isStr = true
  queue : b = .amqp → ∀ v, dict "queue" = some v → v.isStr = true ∨ v = .none

def given (dict : PyDict) (key : String) : Option String :=
  (dict key).bind DictValue.text?

def describe (dict : PyDict) : Backend → BrokerConfig
  | .redis => .redis
      ⟨(given dict "url").getD "redis://localhost:6379", (given dict "channel").getD "ws_broadcast"⟩
  | .amqp => .amqp
      ⟨(given dict "url").getD "amqp://localhost:5672", (given dict "exchange").getD "ws_broadcast",
        given dict "queue", (given dict "routing_key").getD "#"⟩

/-- What the documentation says of a dictionary. -/
structure AsDocumented (castError : DictValue → PyErr) (dict : PyDict) : Prop where
  accepted : (∃ c, BrokerConfig.fromPy castError dict = .ok c) ↔ ∃ b, Documented b dict
  described : ∀ b, Documented b dict → ∀ c, BrokerConfig.fromPy castError dict = .ok c →
    c = describe dict b
  /-- Other keys do not count. -/
  others : ∀ dict' : PyDict, dict' "type" = dict "type" →
    (∀ b : Backend, dict "type" = some (.str b.name) → ∀ key ∈ b.keys, dict' key = dict key) →
      BrokerConfig.fromPy castError dict' = BrokerConfig.fromPy castError dict

/-! ### What is read -/

/-- Nothing, or what `extract` takes. -/
def Readable (dict : PyDict) (key : String) : Prop :=
  ∀ v, dict key = some v → ∃ s, v = .str s

section Read
variable {castError : DictValue → PyErr} {dict : PyDict}

theorem extract_eq_ok {v : DictValue} {s : String} : v.extract castError = .ok s ↔ v = .str s := by
  cases v <;> simp [DictValue.extract]

theorem getType_eq_ok {s : String} : getType castError dict = .ok s ↔ dict "type" = some (.str s) := by
  unfold getType
  cases dict "type" with
  | none => simp
  | some v => simp [extract_eq_ok]

theorem getStr_of_readable {key : String} (h : Readable dict key) :
    getStr castError dict key = .ok (given dict key) := by
  unfold getStr given
  cases hkey : dict key with
  | none => rfl
  | some v =>
    obtain ⟨s, rfl⟩ := h v hkey
    rfl

theorem readable_of_getStr {key : String} {o : Option String}
    (h : getStr castError dict key = .ok o) : Readable dict key := by
  intro v hkey
  simp only [getStr, hkey] at h
  cases hv : v.extract castError with
  | error e => simp [hv, Except.map] at h
  | ok s => exact ⟨s, extract_eq_ok.mp hv⟩

theorem getStr_eq_ok {key : String} {o : Option String} :
    getStr castError dict key = .ok o ↔ Readable dict key ∧ o = given dict key := by
  constructor
  · intro h
    have hread := readable_of_getStr h
    rw [getStr_of_readable hread] at h
    exact ⟨hread, (Except.ok.inj h).symm⟩
  · rintro ⟨hread, rfl⟩
    exact getStr_of_readable hread

theorem getOr_eq_ok {key default s : String} :
    getOr castError dict key default = .ok s ↔
      Readable dict key ∧ s = (given dict key).getD default := by
  unfold getOr
  cases hget : getStr castError dict key with
  | error e =>
    refine iff_of_false (fun h => by cases h) ?_
    rintro ⟨hread, -⟩
    rw [getStr_of_readable hread] at hget
    cases hget
  | ok o =>
    obtain ⟨hread, rfl⟩ := getStr_eq_ok.mp hget
    simp [Except.map, hread, eq_comm]

theorem backend_of_type (s : String) :
    (∃ b : Backend, s = b.name) ∨ s ≠ "redis" ∧ s ≠ "amqp" := by
  by_cases hredis : s = "redis"
  · exact .inl ⟨.redis, hredis⟩
  · by_cases hamqp : s = "amqp"
    · exact .inl ⟨.amqp, hamqp⟩
    · exact .inr ⟨hredis, hamqp⟩

theorem fromPy_of_type {b : Backend} (htype : dict "type" = some (.str b.name)) {c : BrokerConfig} :
    BrokerConfig.fromPy castError dict = .ok c ↔
      (∀ key ∈ b.keys, Readable dict key) ∧ c = describe dict b := by
  have hget : getType castError dict = .ok b.name := getType_eq_ok.mpr htype
  rw [BrokerConfig.fromPy, bind_eq_ok]
  simp only [hget, Except.ok.injEq, exists_eq_left']
  cases b with
  | redis =>
    simp [-bind_pure_comp, bind_eq_ok, getOr_eq_ok, pure, Except.pure, Backend.name, Backend.keys,
      describe, @eq_comm _ c, and_assoc]
  | amqp =>
    simp [-bind_pure_comp, bind_eq_ok, getOr_eq_ok, getStr_eq_ok, pure, Except.pure, Backend.name,
      Backend.keys, describe, @eq_comm _ c, and_assoc]

theorem type_of_fromPy {c : BrokerConfig} (h : BrokerConfig.fromPy castError dict = .ok c) :
    ∃ b : Backend, dict "type" = some (.str b.name) := by
  obtain ⟨brokerType, htype, h⟩ := bind_eq_ok.mp h
  rw [getType_eq_ok] at htype
  obtain ⟨b, rfl⟩ | ⟨hredis, hamqp⟩ := backend_of_type brokerType
  · exact ⟨b, htype⟩
  · simp [hredis, hamqp] at h

/-- The dictionary is asked for the keys of its type alone. -/
theorem fromPy_congr {dict' : PyDict} (htype : dict' "type" = dict "type")
    (h : ∀ b : Backend, dict "type" = some (.str b.name) → ∀ key ∈ b.keys, dict' key = dict key) :
    BrokerConfig.fromPy castError dict' = BrokerConfig.fromPy castError dict := by
  have hget : getType castError dict' = getType castError dict := by
    simp only [getType, htype]
  have hstr : ∀ b : Backend, getType castError dict = .ok b.name → ∀ key ∈ b.keys,
      getStr castError dict' key = getStr castError dict key := by
    intro b hb key hkey
    simp only [getStr, h b (getType_eq_ok.mp hb) key hkey]
  unfold BrokerConfig.fromPy
  rw [hget]
  cases hs : getType castError dict with
  | error e => rfl
  | ok s =>
    rw [ok_bind, ok_bind]
    obtain ⟨b, rfl⟩ | ⟨hredis, hamqp⟩ := backend_of_type s
    · have hstr := hstr b hs
      cases b with
      | redis =>
        simp [getOr, hstr "url" (by decide), hstr "channel" (by decide), Backend.name]
      | amqp =>
        simp [getOr, hstr "url" (by decide), hstr "exchange" (by decide), hstr "queue" (by decide),
          hstr "routing_key" (by decide), Backend.name]
    · simp [hredis, hamqp]

/-! ### Against the documentation -/

theorem Backend.mem_keys {b : Backend} {key : String} :
    key ∈ b.keys ↔ key ∈ b.texts ∨ b = .amqp ∧ key = "queue" := by
  cases b with
  | redis => simp [Backend.keys, Backend.texts]
  | amqp =>
    simp only [Backend.keys, Backend.texts, List.mem_cons, true_and]
    tauto

theorem documented_of_readable {b : Backend} (htype : dict "type" = some (.str b.name))
    (h : ∀ key ∈ b.keys, Readable dict key) : Documented b dict where
  type := htype
  texts := by
    intro key hkey v hv
    obtain ⟨s, rfl⟩ := h key (Backend.mem_keys.mpr (.inl hkey)) v hv
    rfl
  queue := by
    intro hb v hv
    obtain ⟨s, rfl⟩ := h "queue" (Backend.mem_keys.mpr (.inr ⟨hb, rfl⟩)) v hv
    exact .inl rfl

/-- What is documented is read unless it is `None`, or a text that is not UTF-8. -/
theorem Documented.readable_iff {b : Backend} (hdoc : Documented b dict) {key : String}
    (hkey : key ∈ b.keys) :
    Readable dict key ↔ dict key ≠ some .surrogateStr ∧ dict key ≠ some .none := by
  constructor
  · intro h
    constructor
    · intro hv
      obtain ⟨s, hs⟩ := h _ hv
      cases hs
    · intro hv
      obtain ⟨s, hs⟩ := h _ hv
      cases hs
  · rintro ⟨hsurrogate, hnone⟩ v hv
    cases v with
    | str s => exact ⟨s, rfl⟩
    | surrogateStr => exact absurd hv hsurrogate
    | none => exact absurd hv hnone
    | other =>
      obtain htext | ⟨hb, rfl⟩ := Backend.mem_keys.mp hkey
      · cases hdoc.texts key htext _ hv
      · obtain h | h := hdoc.queue hb _ hv <;> cases h

end Read

/-- **A dictionary is read as documented unless a key that is asked for has what cannot be read.**
`from_py` accepts the documented dictionaries and no others, takes what is given or the default,
and looks at no other key, if and only if the dictionary is not documented, or no key of its type
has `None`, which the documentation gives for the queue, or a text with a lone surrogate. -/
theorem from_py_documented (castError : DictValue → PyErr) (dict : PyDict) :
    AsDocumented castError dict ↔ ∀ b, Documented b dict → ∀ key ∈ b.keys,
      dict key ≠ some .surrogateStr ∧ dict key ≠ some .none := by
  constructor
  · intro h b hdoc key hkey
    obtain ⟨c, hc⟩ := h.accepted.mpr ⟨b, hdoc⟩
    have hread := ((fromPy_of_type hdoc.type).mp hc).1
    exact (hdoc.readable_iff hkey).mp (hread key hkey)
  · intro h
    refine ⟨⟨?_, ?_⟩, ?_, fun dict' htype hkeys => fromPy_congr htype hkeys⟩
    · rintro ⟨c, hc⟩
      obtain ⟨b, htype⟩ := type_of_fromPy hc
      have hread := ((fromPy_of_type htype).mp hc).1
      exact ⟨b, documented_of_readable htype hread⟩
    · rintro ⟨b, hdoc⟩
      have hread : ∀ key ∈ b.keys, Readable dict key :=
        fun key hkey => (hdoc.readable_iff hkey).mpr (h b hdoc key hkey)
      exact ⟨describe dict b, (fromPy_of_type hdoc.type).mpr ⟨hread, rfl⟩⟩
    · intro b hdoc c hc
      exact ((fromPy_of_type hdoc.type).mp hc).2

/-- The dictionary of the documentation for AMQP. -/
def amqpExample : PyDict
  | "type" => some (.str "amqp")
  | "url" => some (.str "amqp://localhost:5672")
  | "exchange" => some (.str "ws_broadcast")
  | "queue" => some .none
  | "routing_key" => some (.str "#")
  | _ => none

theorem amqp_example_refused :
    Documented .amqp amqpExample ∧
      BrokerConfig.fromPy (fun _ => .typeError "not a str") amqpExample =
        .error (.typeError "not a str") := by
  refine ⟨⟨rfl, ?_, ?_⟩, by decide⟩
  · simp [Backend.texts, amqpExample, DictValue.isStr]
  · simp [amqpExample]

end Webrockets
