import AfkClient.Library.Json
import AfkClient.Library.Text

/-! Secret fields of audit records (`logging/redactSecrets.ts`). -/

namespace AfkClient.Redaction

def secretKeys : List String :=
  ["password", "passwordhash", "currentpassword", "newpassword", "credentialspassword",
    "credentialssecret", "secret", "sessionsecret", "encryptionkey", "sessionid", "csrftoken",
    "accesstoken", "refreshtoken", "token", "authorization", "cookie", "proxies"]

/-- `[_-]` -/
def isMark (c : Char) : Bool := c == '_' || c == '-'

/-- `secretKeys.has(key.toLowerCase().replace(/[_-]/g, ""))` -/
def isSecretKey (key : String) : Bool :=
  (Text.toLowerCase key.toList).filter (! isMark ·) ∈ secretKeys.map String.toList

def redacted : Json := .str "[REDACTED]"

def maxDepth : ℕ := 32

mutual

/-- `redactSecrets(value, depth)`; the entries of an object have different keys. -/
def redactSecrets (depth : ℕ) : Json → Json
  | .arr items => if maxDepth < depth then redacted else .arr (redactItems (depth + 1) items)
  | .obj entries => if maxDepth < depth then redacted else .obj (redactEntries (depth + 1) entries)
  | value => if maxDepth < depth then redacted else value

def redactItems (depth : ℕ) : List Json → List Json
  | [] => []
  | item :: items => redactSecrets depth item :: redactItems depth items

def redactEntries (depth : ℕ) : List (String × Json) → List (String × Json)
  | [] => []
  | (key, entry) :: entries =>
      (key, if isSecretKey key then redacted else redactSecrets depth entry) ::
        redactEntries depth entries

end

end AfkClient.Redaction
