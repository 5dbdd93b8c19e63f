/-!
# What can go wrong with settings
-/

namespace GraphCalc

/-- Why a document gives no settings. -/
inductive SettingsError where
  /-- the document cannot be read from `rest` on -/
  | unparsed (rest : String)
  | unknownSection (title : String)
  | unknownKey (title key : String)
  | invalidValue (key value : String)
  /-- there is no text to read -/
  | unreadable (reason : String)
  deriving DecidableEq, Repr

/-- The error in words. -/
def SettingsError.message : SettingsError → String
  | unparsed rest => "Parsing error: cannot parse settings starting at '" ++ rest ++ "'"
  | unknownSection title => "Unknown section '" ++ title ++ "'"
  | unknownKey title key => "Unknown key '" ++ key ++ "' in section '" ++ title ++ "'"
  | invalidValue key value => "Invalid value '" ++ value ++ "' for key '" ++ key ++ "'"
  | unreadable reason => "Cannot read settings: " ++ reason

end GraphCalc
