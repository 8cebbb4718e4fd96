/-!
# The error channel

A failed call answers with its error, and its message also goes to a channel, so that the author of
a script sees it even when the caller goes on. A channel shows messages on standard error, keeps
them for the host, or drops them.
-/

set_option autoImplicit false

namespace Settings

inductive Channel where
  /-- The lines for standard error that the program has yet to print, oldest first. -/
  | standardError (lines : List String)
  /-- The messages kept so far, oldest first. -/
  | buffer (messages : List String)
  | silent

namespace Channel

def report (c : Channel) (message : String) : Channel :=
  match c with
  | standardError lines => standardError (lines ++ ["error: " ++ message])
  | buffer messages => buffer (messages ++ [message])
  | silent => silent

def messages : Channel → List String
  | buffer kept => kept
  | standardError _ | silent => []

def clear : Channel → Channel
  | buffer _ => buffer []
  | c => c

end Channel

end Settings
