-- What can go wrong around the reading of tokens: in settings, in files, in the
-- environment. Errors inside a text are tokens and not found here.

namespace SqlTokens

/-- The variables of the environment that change the configuration. -/
inductive Variable where
  | stopOnError | maxInputLength | traceTokens | logLevel
  deriving DecidableEq

namespace Variable

/-- What the names of all variables start with. -/
def stem : String := "SQLLEX_"

/-- The name of a variable. -/
def name : Variable → String
  | .stopOnError => stem ++ "STOP_ON_ERROR"
  | .maxInputLength => stem ++ "MAX_INPUT_LENGTH"
  | .traceTokens => stem ++ "TRACE_TOKENS"
  | .logLevel => stem ++ "LOG_LEVEL"

end Variable

/-- The kinds of errors, by the part that reports them. -/
inductive ErrorKind where
  | io | configParse | configuration | validation | json
  deriving DecidableEq

/-- The causes of errors. -/
inductive Error where
  /-- The limit on the length of the input is zero. -/
  | zeroLimit
  /-- No log level has this name. -/
  | unknownLevel (name : String)
  /-- A variable has a value that it cannot have. -/
  | badVariable (name : Variable) (value : String)
  /-- The input is longer than the settings allow. -/
  | inputTooLong (length limit : Nat)
  | fileMissing
  | isDirectory
  | notUtf8
  /-- The text of a configuration is not well formed, or a field has a value of another type. -/
  | badConfig
  /-- A stored list of tokens is not well formed. -/
  | badTokens
  /-- An error of a kind that has a message, with a message of the caller. -/
  | custom (kind : ErrorKind) (text : String)
  deriving DecidableEq

namespace Error

def kind : Error → ErrorKind
  | .zeroLimit | .unknownLevel _ | .badVariable _ _ => .configuration
  | .inputTooLong _ _ => .validation
  | .fileMissing | .isDirectory | .notUtf8 => .io
  | .badConfig => .configParse
  | .badTokens => .json
  | .custom kind _ => kind

/-- The cause in words. Texts that are not well formed are reported without details. -/
def text? : Error → Option String
  | .zeroLimit => some "max_input_length must be greater than 0"
  | .unknownLevel name => some ("Unknown log level: " ++ name)
  | .badVariable v value => some ("Invalid value for " ++ v.name ++ ": " ++ value)
  | .inputTooLong length limit =>
    some ("Input length " ++ length.repr ++ " exceeds the limit of " ++ limit.repr ++
      " characters")
  | .fileMissing => some "No such file or directory (os error 2)"
  | .isDirectory => some "Is a directory (os error 21)"
  | .notUtf8 => some "stream did not contain valid UTF-8"
  | .badConfig | .badTokens => none
  | .custom _ text => some text

/-- What a message starts with, for each kind of error that has one. -/
def heading : ErrorKind → String
  | .io => "I/O error: "
  | .configParse => "Configuration parse error: "
  | .configuration => "Configuration error: "
  | .validation => "Validation error: "
  | .json => "JSON error: "

/-- The whole message. -/
def message? (e : Error) : Option String := e.text?.map (heading e.kind ++ ·)

end Error

end SqlTokens
