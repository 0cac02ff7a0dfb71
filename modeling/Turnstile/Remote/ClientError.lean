import Turnstile.Failure

/-!
# Failures of a client

What a client of the coordination server reports when a command does not succeed. A failure of the
transport means that nobody could be asked; any other failure is an answer.
-/

namespace Turnstile.Remote

inductive ClientError
  | transport (text : String)
  | described (kind description : String) (detail : Option String)
deriving DecidableEq

namespace ClientError

/-- The kind follows a dash; with a detail a blank stands before the dash. -/
def message : ClientError → String
  | transport text => text
  | described kind description none => description ++ "- " ++ kind
  | described kind description (some detail) => description ++ " - " ++ kind ++ ": " ++ detail

/-- The kind of a failure of the transport. -/
def transportKind : String := "IoError"

def isTransport : ClientError → Bool
  | transport _ => true
  | described kind _ _ => kind == transportKind

/-- The failure of the guard that sent the command. -/
def toGuard (e : ClientError) : GuardError :=
  if e.isTransport then .unavailable e.message else .backend e.message

end ClientError

end Turnstile.Remote
