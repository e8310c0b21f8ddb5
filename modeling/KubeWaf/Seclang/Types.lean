import Mathlib.Data.List.Basic

/-!
# The `seclang.kubewaf.io/v1beta1` data model

The fields of a `SecRule` and a `SecAction` that conversion and assembly read. A Go string
type with named constants is an `ApiEnum`: one of the constants, or any other text a client
may have stored. The four mapper families of `convert/zz_generated_*.go` send every constant
to the crslang constant of the same name, so one inductive type of names serves both sides.
-/

namespace KubeWaf.Seclang

/-! ## String enumerations -/

/-- A Go `string` type with constants `α`: a constant, or a text outside the constants
(the zero value is `.text ""`). -/
inductive ApiEnum (α : Type) where
  | known (a : α)
  | text (s : String)
deriving DecidableEq

/-- The string behind an enumeration value, given the texts of its constants. -/
def ApiEnum.toText {α : Type} (texts : α → String) : ApiEnum α → String
  | .known a => texts a
  | .text s => s

/-- The Go conversion `T(s)` from a string: a constant when `s` is the text of one. -/
def ApiEnum.ofText {α : Type} (texts : α → String) (all : List α) (s : String) : ApiEnum α :=
  match all.find? (fun a => texts a == s) with
  | some a => .known a
  | none => .text s

inductive VariableName where
  | UNKNOWN_VAR | ARGS_COMBINED_SIZE | AUTH_TYPE | DURATION | FILES_COMBINED_SIZE | FILES_NAMES
  | FILES_SIZES | FILES_TMP_CONTENT | FILES_TMPNAMES | FULL_REQUEST | FULL_REQUEST_LENGTH
  | HIGHEST_SEVERITY | INBOUND_DATA_ERROR | MATCHED_VAR | MATCHED_VAR_NAME | MODSEC_BUILD
  | MSC_PCRE_LIMITS_EXCEEDED | MULTIPART_CRLF_LF_LINES | MULTIPART_FILENAME | MULTIPART_NAME
  | MULTIPART_STRICT_ERROR | MULTIPART_UNMATCHED_BOUNDARY | OUTBOUND_DATA_ERROR | PATH_INFO
  | PERF_ALL | PERF_COMBINED | PERF_GC | PERF_LOGGING | PERF_PHASE1 | PERF_PHASE2 | PERF_PHASE3
  | PERF_PHASE4 | PERF_PHASE5 | PERF_SREAD | PERF_SWRITE | QUERY_STRING | REMOTE_ADDR
  | REMOTE_HOST | REMOTE_PORT | REMOTE_USER | REQBODY_ERROR | REQBODY_ERROR_MSG
  | REQBODY_PROCESSOR | REQUEST_BASENAME | REQUEST_BODY | REQUEST_BODY_LENGTH
  | REQUEST_FILENAME | REQUEST_LINE | REQUEST_METHOD | REQUEST_PROTOCOL | REQUEST_URI
  | REQUEST_URI_RAW | RESPONSE_BODY | RESPONSE_CONTENT_LENGTH | RESPONSE_CONTENT_TYPE
  | RESPONSE_PROTOCOL | RESPONSE_STATUS | SCRIPT_BASENAME | SCRIPT_FILENAME | SCRIPT_GID
  | SCRIPT_GROUPNAME | SCRIPT_MODE | SCRIPT_UID | SCRIPT_USERNAME | SDBM_DELETE_ERROR
  | SERVER_ADDR | SERVER_NAME | SERVER_PORT | SESSIONID | STATUS_LINE | STREAM_INPUT_BODY
  | STREAM_OUTPUT_BODY | TIME | TIME_DAY | TIME_EPOCH | TIME_HOUR | TIME_MIN | TIME_MON
  | TIME_SEC | TIME_WDAY | TIME_YEAR | UNIQUE_ID | URLENCODED_ERROR | USERAGENT_IP | USERID
  | WEBAPPID | WEBSERVER_ERROR_LOG | MSC_PCRE_ERROR | MULTIPART_BOUNDARY_QUOTED
  | MULTIPART_BOUNDARY_WHITESPACE | MULTIPART_DATA_AFTER | MULTIPART_DATA_BEFORE
  | MULTIPART_FILE_LIMIT_EXCEEDED | MULTIPART_HEADER_FOLDING
  | MULTIPART_INVALID_HEADER_FOLDING | MULTIPART_INVALID_PART | MULTIPART_INVALID_QUOTING
  | MULTIPART_LF_LINE | MULTIPART_MISSING_SEMICOLON | MULTIPART_SEMICOLON_MISSING
  | REQBODY_PROCESSOR_ERROR | REQBODY_PROCESSOR_ERROR_MSG | STATUS
deriving DecidableEq

inductive CollectionName where
  | ARGS | ARGS_GET | ARGS_GET_NAMES | ARGS_NAMES | ARGS_POST_NAMES | ARGS_POST | ENV | FILES
  | GEO | GLOBAL | IP | MATCHED_VARS_NAMES | MATCHED_VARS | MULTIPART_PART_HEADERS | PERF_RULES
  | REQUEST_COOKIES_NAMES | REQUEST_COOKIES | REQUEST_HEADERS_NAMES | REQUEST_HEADERS
  | RESOURCE | RESPONSE_HEADERS_NAMES | RESPONSE_HEADERS | RULE | SESSION | TX | USER | XML
  | UNKNOWN_COLLECTION
deriving DecidableEq

inductive OperatorType where
  | unknownOperator | beginsWith | contains | containsWord | detectSQLi | detectXSS | endsWith
  | eq | fuzzyHash | ge | geoLookup | gsbLookup | gt | inspectFile | ipMatchF | ipMatchFromFile
  | ipMatch | le | lt | pmf | pmFromFile | pm | rbl | rsub | rx | rxGlobal | strEq | strMatch
  | unconditionalMatch | validateByteRange | validateDTD | validateHash | validateSchema
  | validateUrlEncoding | validateUtf8Encoding | verifyCC | verifyCPF | verifySSN | verifySVNR
  | within
deriving DecidableEq

inductive Transformation where
  | unknownTransformation | base64Decode | base64DecodeExt | base64Encode | cmdLine
  | compressWhitespace | escapeSeqDecode | cssDecode | hexEncode | hexDecode | htmlEntityDecode
  | jsDecode | length | lowercase | md5 | none | normalisePath | normalisePathWin
  | parityEven7bit | parityOdd7bit | parityZero7bit | removeComments | removeCommentsChar
  | removeNulls | removeWhitespace | replaceComments | replaceNulls | sha1 | sqlHexDecode
  | trim | trimLeft | trimRight | uppercase | urlEncode | urlDecode | urlDecodeUni
  | utf8toUnicode
deriving DecidableEq

/-- The constants of `secrule_transformations.go`. -/
def Transformation.text : Transformation → String
  | .unknownTransformation => "unknownTransformation"
  | .base64Decode => "base64Decode"
  | .base64DecodeExt => "base64DecodeExt"
  | .base64Encode => "base64Encode"
  | .cmdLine => "cmdLine"
  | .compressWhitespace => "compressWhitespace"
  | .escapeSeqDecode => "escapeSeqDecode"
  | .cssDecode => "cssDecode"
  | .hexEncode => "hexEncode"
  | .hexDecode => "hexDecode"
  | .htmlEntityDecode => "htmlEntityDecode"
  | .jsDecode => "jsDecode"
  | .length => "length"
  | .lowercase => "lowercase"
  | .md5 => "md5"
  | .none => "none"
  | .normalisePath => "normalisePath"
  | .normalisePathWin => "normalisePathWin"
  | .parityEven7bit => "parityEven7bit"
  | .parityOdd7bit => "parityOdd7bit"
  | .parityZero7bit => "parityZero7bit"
  | .removeComments => "removeComments"
  | .removeCommentsChar => "removeCommentsChar"
  | .removeNulls => "removeNulls"
  | .removeWhitespace => "removeWhitespace"
  | .replaceComments => "replaceComments"
  | .replaceNulls => "replaceNulls"
  | .sha1 => "sha1"
  | .sqlHexDecode => "sqlHexDecode"
  | .trim => "trim"
  | .trimLeft => "trimLeft"
  | .trimRight => "trimRight"
  | .uppercase => "uppercase"
  | .urlEncode => "urlEncode"
  | .urlDecode => "urlDecode"
  | .urlDecodeUni => "urlDecodeUni"
  | .utf8toUnicode => "utf8toUnicode"

/-! ## Actions (`secrule_actions.go`) -/

inductive DisruptiveActionType where
  | allow | block | deny | drop | pass | pause | proxy | redirect
deriving DecidableEq

def DisruptiveActionType.text : DisruptiveActionType → String
  | .allow => "allow"
  | .block => "block"
  | .deny => "deny"
  | .drop => "drop"
  | .pass => "pass"
  | .pause => "pause"
  | .proxy => "proxy"
  | .redirect => "redirect"

def DisruptiveActionType.all : List DisruptiveActionType :=
  [.allow, .block, .deny, .drop, .pass, .pause, .proxy, .redirect]

inductive NonDisruptiveActionType where
  | append | auditLog | capture | ctl | deprecateVar | exec | expireVar | initCol | log
  | logData | multiMatch | noAuditLog | noLog | sanitiseArg | sanitiseMatched
  | sanitiseMatchedBytes | sanitiseRequestHeader | sanitiseResponseHeader | setEnv | setRsc
  | setSid | setUid | setVar
deriving DecidableEq

def NonDisruptiveActionType.text : NonDisruptiveActionType → String
  | .append => "append"
  | .auditLog => "auditlog"
  | .capture => "capture"
  | .ctl => "ctl"
  | .deprecateVar => "deprecatevar"
  | .exec => "exec"
  | .expireVar => "expirevar"
  | .initCol => "initcol"
  | .log => "log"
  | .logData => "logdata"
  | .multiMatch => "multiMatch"
  | .noAuditLog => "noauditlog"
  | .noLog => "nolog"
  | .sanitiseArg => "sanitiseArg"
  | .sanitiseMatched => "sanitiseMatched"
  | .sanitiseMatchedBytes => "sanitiseMatchedBytes"
  | .sanitiseRequestHeader => "sanitiseRequestHeader"
  | .sanitiseResponseHeader => "sanitiseResponseHeader"
  | .setEnv => "setenv"
  | .setRsc => "setrsc"
  | .setSid => "setsid"
  | .setUid => "setuid"
  | .setVar => "setvar"

def NonDisruptiveActionType.all : List NonDisruptiveActionType :=
  [.append, .auditLog, .capture, .ctl, .deprecateVar, .exec, .expireVar, .initCol, .log,
    .logData, .multiMatch, .noAuditLog, .noLog, .sanitiseArg, .sanitiseMatched,
    .sanitiseMatchedBytes, .sanitiseRequestHeader, .sanitiseResponseHeader, .setEnv, .setRsc,
    .setSid, .setUid, .setVar]

inductive FlowActionType where
  | chain | skip | skipAfter | flowUnknown
deriving DecidableEq

def FlowActionType.text : FlowActionType → String
  | .chain => "chain"
  | .skip => "skip"
  | .skipAfter => "skipAfter"
  | .flowUnknown => "flowUnknown"

def FlowActionType.all : List FlowActionType := [.chain, .skip, .skipAfter, .flowUnknown]

inductive DataActionType where
  | status | xlmns
deriving DecidableEq

def DataActionType.text : DataActionType → String
  | .status => "status"
  | .xlmns => "xmlns"

def DataActionType.all : List DataActionType := [.status, .xlmns]

/-- `DisruptiveAction`, `NonDisruptiveAction`, `FlowAction` and `DataAction`: a type out of
the enumeration `τ`, and a value that is empty when the action takes none. -/
structure ApiAction (τ : Type) where
  type : ApiEnum τ
  value : String
deriving DecidableEq

abbrev DisruptiveAction := ApiAction DisruptiveActionType
abbrev NonDisruptiveAction := ApiAction NonDisruptiveActionType
abbrev FlowAction := ApiAction FlowActionType
abbrev DataAction := ApiAction DataActionType

structure SecRuleActions where
  data : List DataAction := []
  disruptiveAction : Option DisruptiveAction := none
  flow : List FlowAction := []
  nonDisruptive : List NonDisruptiveAction := []
deriving DecidableEq

/-! ## Conditions and metadata -/

structure Variable where
  name : ApiEnum VariableName
  excluded : Bool
deriving DecidableEq

structure Collection where
  name : ApiEnum CollectionName
  arguments : List String
  excluded : List String
  count : Bool
deriving DecidableEq

structure Operator where
  negate : Bool := false
  name : ApiEnum OperatorType := .text ""
  value : String := ""
deriving DecidableEq

structure Condition where
  vars : List Variable := []
  collections : List Collection := []
  operator : Operator := {}
  transformations : List (ApiEnum Transformation) := []
  alwaysMatch : Bool := false
  script : String := ""
deriving DecidableEq

/-- `SecRuleMetadata` with its embedded `OnlyPhaseMetadata` and `CommentMetadata`. crslang
declares the same fields, and `copier.Copy` copies field by field, so the record is shared. -/
structure SecRuleMetadata where
  comment : String := ""
  phase : String := ""
  id : Int := 0
  msg : String := ""
  maturity : String := ""
  rev : String := ""
  severity : String := ""
  tags : List String := []
  ver : String := ""
deriving DecidableEq

/-! ## `SecRule` and `SecAction` -/

/-- One link of the condition chain of a rule in the single-rule form. -/
structure Match where
  vars : List Variable := []
  collections : List Collection := []
  operator : Operator := {}
  transformations : List (ApiEnum Transformation) := []
  alwaysMatch : Bool := false
  script : String := ""
  actions : Option SecRuleActions := none
deriving DecidableEq

def Match.toCondition (m : Match) : Condition where
  vars := m.vars
  collections := m.collections
  operator := m.operator
  transformations := m.transformations
  alwaysMatch := m.alwaysMatch
  script := m.script

/-- An entry of the legacy multi-rule bag `spec.secLangRules`. -/
structure SecLangSecRule where
  metadata : Option SecRuleMetadata := none
  conditions : List Condition := []
  actions : Option SecRuleActions := none
  secMarker : String := ""
deriving DecidableEq

structure SecRuleSpec where
  order : Int := 0
  markerAfter : String := ""
  metadata : Option SecRuleMetadata := none
  matchLinks : List Match := []
  actions : Option SecRuleActions := none
  secRules : List SecLangSecRule := []
deriving DecidableEq

/-- Whether the spec uses the canonical one-rule shape. -/
def SecRuleSpec.isSingleRuleForm (s : SecRuleSpec) : Bool :=
  s.metadata.isSome || !s.matchLinks.isEmpty || (s.actions.isSome && s.secRules.isEmpty)

/-- `RuleSetRef`, the back reference stored on a rule. The group and version it also has are
never written. -/
structure RuleSetRef where
  kind : String
  ns : String
  name : String
deriving DecidableEq

structure SecRuleStatus where
  ruleID : Int := 0
  assignedIDs : List Int := []
  ruleSetRefs : List RuleSetRef := []
deriving DecidableEq

structure SecRule where
  ns : String := ""
  name : String := ""
  spec : SecRuleSpec
  status : SecRuleStatus := {}
deriving DecidableEq

structure SecActionSpec where
  metadata : Option SecRuleMetadata := none
  actions : SecRuleActions := {}
  transformations : List (ApiEnum Transformation) := []
deriving DecidableEq

structure SecActionStatus where
  ruleSetRefs : List RuleSetRef := []
deriving DecidableEq

structure SecAction where
  ns : String := ""
  name : String := ""
  spec : SecActionSpec
  status : SecActionStatus := {}
deriving DecidableEq

end KubeWaf.Seclang
