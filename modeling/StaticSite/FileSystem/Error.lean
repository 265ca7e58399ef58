/-!
The ways in which an operation on files fails.
-/
namespace StaticSite

inductive IoError where
  | notFound
  | alreadyExists
  | isADirectory
  | notADirectory
  | directoryNotEmpty
  | filesystemLoop
  | invalidFilename
  | invalidInput
  | invalidData
  | resourceBusy
  deriving DecidableEq, Repr

namespace IoError

-- The text that the operating system has for the failure.
def message : IoError → String
  | notFound => "No such file or directory"
  | alreadyExists => "File exists"
  | isADirectory => "Is a directory"
  | notADirectory => "Not a directory"
  | directoryNotEmpty => "Directory not empty"
  | filesystemLoop => "Too many levels of symbolic links"
  | invalidFilename => "File name too long"
  | invalidInput => "Invalid argument"
  | invalidData => "stream did not contain valid UTF-8"
  | resourceBusy => "Device or resource busy"

end IoError

end StaticSite
