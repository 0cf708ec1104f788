/-! Lines of the log, each under the project it tells of. No project is the empty text. -/
namespace PackageModularity

inductive Level where
  | info
  | warn
  | error
  deriving DecidableEq, Repr

structure LogLine where
  level : Level
  project : String
  text : String
  deriving DecidableEq, Repr

end PackageModularity
