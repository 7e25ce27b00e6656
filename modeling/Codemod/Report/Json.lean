import Codemod.Json.Printer
import Codemod.Json.Reader
import Codemod.Report.Data

/-! The report as JSON text, and reading it back. -/
namespace Codemod.Report

/-- The report as JSON; an empty table stands for one that cannot be written. -/
def json (r : Report) : String := Json.print .pretty (r.toData?.getD (.table []))

def ofJson? (text : String) : Option Report := (Json.read text).bind ofData?

end Codemod.Report
