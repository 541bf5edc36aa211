/-!
# TOML values

Floats keep their literal and date-times their normal form: this library reads neither further.
A reader returns what it found and the text after it, or nothing.
-/
namespace OnDemandCss.Toml

inductive Value where
  | string (s : String)
  | integer (n : Int)
  | float (literal : String)
  | boolean (b : Bool)
  | datetime (text : String)
  | array (items : List Value)
  | table (entries : List (String × Value))

abbrev Entries := List (String × Value)

end OnDemandCss.Toml
