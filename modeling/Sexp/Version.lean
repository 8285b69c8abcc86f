namespace Sexp

/-- The version of the notation. -/
def version : String := "0.1.0"

end Sexp
