/-!
# What a file operation can answer

The faults of the file operations, and the wording under which the
operating system reports them. No file operation answers `nameTooLong`, since
names of any length are taken: it stands for a walk that has gone down further
than there are directories.
-/

namespace DualPackage

/-- Why a file operation failed. -/
inductive DiskFault where
  | notFound
  | alreadyExists
  | notDirectory
  | isDirectory
  | tooManyLinks
  | nameTooLong
  | invalidText
  | zeroByteInName
  deriving DecidableEq, Repr

/-- The wording of a fault. -/
def DiskFault.message : DiskFault → String
  | notFound => "No such file or directory (os error 2)"
  | alreadyExists => "File exists (os error 17)"
  | notDirectory => "Not a directory (os error 20)"
  | isDirectory => "Is a directory (os error 21)"
  | tooManyLinks => "Too many levels of symbolic links (os error 40)"
  | nameTooLong => "File name too long (os error 36)"
  | invalidText => "stream did not contain valid UTF-8"
  | zeroByteInName => "file name contained an unexpected NUL byte"

end DualPackage
