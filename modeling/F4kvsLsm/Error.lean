/-!
# Errors

The errors that the modelled operations return, with the texts that the
source gives them.  An I/O error carries the text of its kind.
-/

namespace F4kvsLsm

/-- Error types for LSM operations. -/
inductive LsmError where
  | io (text : String)
  | serialization (text : String)
  | corruption (text : String)
  | wal (text : String)
  | internal (text : String)
  deriving DecidableEq, Repr

namespace LsmError

def display : LsmError → String
  | .io text => "I/O error: " ++ text
  | .serialization text => "Serialization error: " ++ text
  | .corruption text => "Data corruption: " ++ text
  | .wal text => "WAL error: " ++ text
  | .internal text => "Internal error: " ++ text

end LsmError

/-- The errors of the engine's interface that a write or a conversion
returns. -/
inductive F4KvsError where
  | storage (message : String)
  | io (message : String)
  | serialization (message : String)
  | internal (message : String)
  deriving DecidableEq, Repr

namespace F4KvsError

def display : F4KvsError → String
  | .storage message => "Storage error: " ++ message
  | .io message => "I/O error: " ++ message
  | .serialization message => "Serialization error: " ++ message
  | .internal message => "Internal error: " ++ message

def serializationWithFormat (format message : String) : F4KvsError :=
  .serialization
    ("Serialization error for format '" ++ format ++ "': " ++ message)

end F4KvsError

end F4kvsLsm
