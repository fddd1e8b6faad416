import SplitSdk.Numbers

namespace SplitSdk.InvoiceEvents

open Numbers

section Values

/-- What a contract event carries. An XDR value is not converted yet: `native` is what `scValToNative`
makes of it, `none` when it throws. -/
inductive JsValue
  | undefined
  | null
  | bool (b : Bool)
  | number (x : JsNumber)
  | bigint (n : Int)
  | string (s : String)
  | array (items : List JsValue)
  | object (fields : List (String × JsValue))
  | xdr (text : String) (native : Option JsValue)

namespace JsValue

def get (v : JsValue) (key : String) : JsValue :=
  match v with
  | .object fields => (fields.lookup key).getD .undefined
  | _ => .undefined

def isObject : JsValue → Bool
  | .array _ | .object _ | .xdr .. => true
  | _ => false

def isTruthy : JsValue → Bool
  | .undefined | .null => false
  | .bool b => b
  | .number x => x ≠ .nan ∧ x ≠ .finite 0
  | .bigint n => n ≠ 0
  | .string s => s ≠ ""
  | .array _ | .object _ | .xdr .. => true

/-- `v ?? d`. -/
def orElse (v d : JsValue) : JsValue :=
  match v with
  | .undefined | .null => d
  | v => v

mutual

/-- `String(v)`. -/
def text : JsValue → String
  | .undefined => "undefined"
  | .null => "null"
  | .bool b => if b then "true" else "false"
  | .number x => Numbers.toString x
  | .bigint n => n.repr
  | .string s => s
  | .array items => String.intercalate "," (texts items)
  | .object _ => "[object Object]"
  | .xdr text _ => text

/-- The texts that `join` puts together. -/
def texts : List JsValue → List String
  | [] => []
  | .undefined :: items | .null :: items => "" :: texts items
  | item :: items => text item :: texts items

end

def join (separator : String) (items : List JsValue) : String := String.intercalate separator (texts items)

/-- `Number(v)`. -/
def toNumber : JsValue → JsNumber
  | .undefined => .nan
  | .null => .finite 0
  | .bool b => .finite (if b then 1 else 0)
  | .number x => x
  | .bigint n => fl n
  | v => ofString v.text

end JsValue

def readRadixInt (base : Nat) (cs : List Char) : Option Int :=
  if cs = [] then none
  else (cs.mapM (digitIn base)).map (fun ds => (ds.foldl (fun v d => base * v + d) 0 : Nat))

/-- `BigInt(s)`, `none` when it throws. -/
def bigIntOfString (s : String) : Option Int :=
  match trim s.toList with
  | [] => some 0
  | '0' :: 'x' :: ds | '0' :: 'X' :: ds => readRadixInt 16 ds
  | '0' :: 'o' :: ds | '0' :: 'O' :: ds => readRadixInt 8 ds
  | '0' :: 'b' :: ds | '0' :: 'B' :: ds => readRadixInt 2 ds
  | '+' :: ds => (readDigits ds).map Int.ofNat
  | '-' :: ds => (readDigits ds).map (fun n => -Int.ofNat n)
  | ds => (readDigits ds).map Int.ofNat

end Values

section Events

structure EventResponse where
  ledger : Nat
  topic : JsValue
  value : JsValue

inductive Failure
  | notAnInteger (text : String)
  | notAFunction

/-- Every type of event has the base fields and its own. -/
structure InvoiceEvent where
  invoiceId : String
  ledger : Nat
  timestamp : Int
  eventId : String
  type : String
  fields : List (String × JsValue)

def computeEventKey (event : EventResponse) : String :=
  let topicStr := match event.topic with
    | .array topic => JsValue.join ":" topic
    | topic => topic.text
  event.ledger.repr ++ ":" ++ topicStr

def parseEventValue (value : JsValue) : JsValue :=
  if !value.isTruthy then .object []
  else match value with
    | .xdr _ (some native) => if native.isObject then native else value
    | value => value

/-- `String(data.key ?? "")`. -/
def textField (data : JsValue) (key : String) : JsValue := .string ((data.get key).orElse (.string "")).text

/-- `Number(data.key ?? 0)`. -/
def numberField (data : JsValue) (key : String) : JsValue :=
  .number ((data.get key).orElse (.number (.finite 0))).toNumber

/-- `BigInt(String(v ?? "0"))`. -/
def bigIntField (v : JsValue) : Except Failure JsValue :=
  let text := (v.orElse (.string "0")).text
  (bigIntOfString text).elim (.error (.notAnInteger text)) (fun n => .ok (.bigint n))

def recipient (r : JsValue) : Except Failure JsValue := do
  let amount ← bigIntField (if r.isObject then r.get "amount" else .string "0")
  let address := if r.isObject then (r.get "address").orElse r else r
  return .object [("address", .string address.text), ("amount", amount)]

def recipients (v : JsValue) : Except Failure JsValue :=
  match v with
  | .undefined | .null => .ok (.array [])
  | .array items => (items.mapM recipient).map .array
  | _ => .error .notAFunction

/-- The types of event whose fields are all texts. -/
def textFields : String → Option (List String)
  | "cancelled" => some ["cancelledBy"]
  | "frozen" => some ["frozenBy", "reason"]
  | "unfrozen" => some ["unfrozenBy"]
  | "dispute_opened" => some ["disputeId", "openedBy", "reason"]
  | "dispute_resolved" => some ["disputeId", "resolvedBy", "resolution"]
  | "split_rules_updated" => some ["updatedBy"]
  | "auto_resolve_rules_updated" => some ["updatedBy"]
  | "prerequisite_added" => some ["prerequisiteId"]
  | "prerequisite_removed" => some ["prerequisiteId"]
  | "forward_chain_created" => some ["forwardInvoiceId"]
  | "penalty_tiers_updated" => some ["updatedBy"]
  | "allowed_callers_updated" => some ["updatedBy"]
  | "nft_gate_set" => some ["contractAddress"]
  | "nft_gate_removed" => some []
  | _ => none

/-- The fields of an event of a type, `none` for a type that is not known. -/
def eventFields (eventType : String) (data : JsValue) (ledger : Nat) (timestamp : Int) :
    Except Failure (Option (List (String × JsValue))) :=
  match eventType with
  | "created" => do
      let recipients ← recipients (data.get "recipients")
      return some [("creator", textField data "creator"), ("recipients", recipients),
        ("token", textField data "token"), ("deadline", numberField data "deadline")]
  | "payment" => do
      let payer := textField data "payer"
      let amount ← bigIntField (data.get "amount")
      return some [("payer", payer), ("amount", amount),
        ("donateOnFailure", .bool (data.get "donateOnFailure").isTruthy),
        ("payment", .object [("payer", payer), ("amount", amount), ("ledger", .number (.finite ledger)),
          ("timestamp", .number (.finite timestamp))])]
  | "released" => do
      let amount ← bigIntField ((data.get "amount").orElse (data.get "totalAmount"))
      return some [("releasedBy", textField data "releasedBy"), ("amount", amount), ("totalAmount", amount)]
  | "refunded" => do
      let refundedBy := JsValue.string
        (((data.get "refundedBy").orElse (data.get "refundedTo")).orElse (.string "")).text
      let amount ← bigIntField ((data.get "amount").orElse (data.get "totalAmount"))
      return some [("refundedBy", refundedBy), ("refundedTo", refundedBy), ("amount", amount), ("totalAmount", amount)]
  | "velocity_limit_updated" => do
      let limitPerWindow ← bigIntField (data.get "limitPerWindow")
      return some [("updatedBy", textField data "updatedBy"), ("limitPerWindow", limitPerWindow),
        ("windowDuration", numberField data "windowDuration")]
  | "scheduled_release_set" => .ok (some [("scheduledAt", numberField data "scheduledAt")])
  | eventType => .ok ((textFields eventType).map (fun keys => keys.map (fun key => (key, textField data key))))

def idText : JsValue → Option String
  | .string s => some s
  | .number x => some (Numbers.toString x)
  | .bigint n => some n.repr
  | _ => none

def extractInvoiceId (event : EventResponse) (topic : List JsValue) : Option String :=
  (topic[1]?.bind idText).or (idText ((parseEventValue event.value).get "invoiceId"))

/-- `now` is the time in seconds. -/
def parseInvoiceEvent (event : EventResponse) (now : Int) : Except Failure (Option InvoiceEvent) :=
  match event.topic with
  | .array (.string eventType :: topic) =>
      match extractInvoiceId event (.string eventType :: topic) with
      | none => .ok none
      | some invoiceId =>
          if eventType = "" ∨ invoiceId = "" then .ok none
          else (eventFields eventType (parseEventValue event.value) event.ledger now).map (fun fields =>
            fields.map (fun fields =>
              { invoiceId, ledger := event.ledger, timestamp := now, eventId := computeEventKey event,
                type := eventType, fields }))
  | _ => .ok none

end Events

end SplitSdk.InvoiceEvents
