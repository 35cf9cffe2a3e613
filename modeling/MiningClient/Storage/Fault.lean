namespace MiningClient

inductive StorageFault
  | notFound
  | notADirectory
  | isADirectory
  | alreadyExists
  | notUtf8
  | nameTooLong
  | nulInName
  | permissionDenied (text : String)
  deriving DecidableEq, Repr

def StorageFault.text : StorageFault → String
  | notFound => "No such file or directory (os error 2)"
  | notADirectory => "Not a directory (os error 20)"
  | isADirectory => "Is a directory (os error 21)"
  | alreadyExists => "File exists (os error 17)"
  | notUtf8 => "stream did not contain valid UTF-8"
  | nameTooLong => "File name too long (os error 36)"
  | nulInName => "file name contained an unexpected NUL byte"
  | permissionDenied text => text

end MiningClient
