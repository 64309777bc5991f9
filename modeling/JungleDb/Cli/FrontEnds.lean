import JungleDb.Cli.Main

/-!
# One text, three front ends

The statements of a text can be put into a file, typed into the REPL, or sent to the server, each in a
request of its own. The tables are the same behind all three, and so are the replies: file mode prints
them one behind another, the REPL between its prompts, and each client of the server reads its own.
-/

namespace JungleDb

open CString Stdio

/-! ## Requests one after another -/

/-- A connection: what arrives on it, and what its calls of `send` do. -/
structure Visit where
  recvs : List Recv
  sends : List Send

/-- A client reads the answer of the reply. -/
def Reply.Reads (reply : Reply) (read : Visit × Bytes) : Prop :=
  ∃ body, reply.Reaches body read.1.sends read.2

end JungleDb
