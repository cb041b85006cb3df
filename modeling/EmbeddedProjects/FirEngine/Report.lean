import EmbeddedProjects.Lib.Markup
import EmbeddedProjects.FirEngine.Capacity
import EmbeddedProjects.FirEngine.CommandLine
import EmbeddedProjects.FirEngine.ParameterText

namespace FirEngine

open Markup

abbrev unsignedText (n : Nat) : List Char := Nat.toDigits 10 n

structure Rgb where
  r : BitVec 8
  g : BitVec 8
  b : BitVec 8

-- the switch of getHtmlRainbowColor, on exact rationals; its cases are those of an f in [0, 1]
def rainbowRgb (f : ℚ) : Rgb :=
  let x := ⌊f * 5⌋
  let cy := BitVec.ofInt 8 ⌊(f * 5 - x) * 255⌋
  if x = 0 then ⟨255, cy, 0⟩
  else if x = 1 then ⟨255 - cy, 255, 0⟩
  else if x = 2 then ⟨0, 255, cy⟩
  else if x = 3 then ⟨0, 255 - cy, 255⟩
  else if x = 4 then ⟨cy, 0, 255⟩
  else ⟨255, 0, 255⟩

def Rgb.htmlColor (c : Rgb) : List Char :=
  '#' :: StringUtil.toHexDigitsPadded ((c.r.toNat <<< 16) + (c.g.toNat <<< 8) + c.b.toNat) 6

def cssText : List String :=
  ["<style type=\"text/css\">", "h1 \x7b", "\tfont-size: 36pt;", "\tcolor:#1C1259;",
    "\tline-height: 1em;", "\tmargin-bottom: 1em;", "\x7d", "h2 \x7b", "\tfont-size: 24pt;",
    "\tcolor:#1C1259;", "\tline-height: 3em;", "\tmargin-bottom: 2em;", "\x7d", "h2:after \x7b",
    "\tcontent:' ';", "    display:block;", "    border:2px solid black;", "\tline-height: 3em;",
    "\x7d", "h3 \x7b", "\tfont-size: 16pt;", "\tcolor:#1C1259;", "\x7d", "h3:after \x7b",
    "\tcontent:' ';", "    display:block;", "    border:1px solid black;", "\x7d", "body \x7b",
    "\tcolor: #666;",
    "\tfont: 12pt \"Open Sans\", \"HelveticaNeue - Light\", \"Helvetica Neue Light\"," ++
      " \"Helvetica Neue\", Helvetica, Arial, \"Lucida Grande\", Sans-Serif;",
    "\tmargin-right: 10pt;", "\tmargin-left: 10pt;", "\tmargin-top: 6.0pt;",
    "\tmargin-bottom: 6.0pt;", "\x7d", "input \x7b", "\tcolor: #666;",
    "\tfont: 12pt \"Open Sans\", \"HelveticaNeue - Light\", \"Helvetica Neue Light\"," ++
      " \"Helvetica Neue\", Helvetica, Arial, \"Lucida Grande\", Sans-Serif;",
    "\tmargin-right: 10pt;", "\tmargin-left: 10pt;", "\tmargin-top: 6.0pt;",
    "\tmargin-bottom: 6.0pt;", "\x7d", "p \x7b", "\tmargin-left: 90.0pt;", "\x7d", "table \x7b",
    "\tmargin-top: 12.0pt;", "\tmargin-bottom: 12.0pt;", "\tmargin-left: 90.0pt;",
    "\tborder-collapse: separate;", "\tborder-spacing: 0;", "\x7d", "table.t1 td, th \x7b",
    "  padding: 6px 15px;", "  text-align: center;", "\x7d", "table.t1 th \x7b",
    "  background: #1C1259;", "  color: #fff;", "  text-align: center;", "\x7d",
    "table.t1 tr:first-child th:first-child \x7b", "  border-top-left-radius: 6px;", "\x7d",
    "table.t1 td:first-child \x7b", "  font: 16px Courier;", "\x7d", "table.tcode td \x7b",
    "  font: 16px Courier;", "  text-align: left;", "  color: black;", "\x7d",
    "table.t1 tr:first-child th:last-child \x7b", "  border-top-right-radius: 6px;", "\x7d",
    "table.t1 td \x7b", "  border-right: 1px solid #c6c9cc;",
    "  border-bottom: 1px solid #c6c9cc;", "\x7d", "table.t1 td:first-child \x7b",
    "  border-left: 1px solid #c6c9cc;", "\x7d", "table.t1 tr:first-child td \x7b",
    "  border-top: 1px solid #c6c9cc;", "\x7d", "table.t1 tr:nth-child(even) td \x7b",
    "  background: #eaeaed;", "\x7d", "table.t1 tr:last-child td:first-child \x7b",
    "  border-bottom-left-radius: 6px;", "\x7d", "table.t1 tr:last-child td:last-child \x7b",
    "  border-bottom-right-radius: 6px;", "\x7d", "</style>"]

namespace FirEngineGlobals

def renderHtmlHeader : List Char :=
  "<!DOCTYPE html PUBLIC \"-//W3C//DTD HTML 4.01//EN\">\n".toList ++ "<html>\n".toList ++
    "<head>\n".toList ++ "<title>FirEngine Design</title>\n".toList ++ "\n".toList ++
    cssText.flatMap (fun line => line.toList ++ "\n".toList) ++ "\n".toList ++
    "<script type=\"text/javascript\" src=\"../../canvasjs/canvasjs.min.js\"></script>\n".toList ++
    "</head>\n\n".toList ++ "<body>\n".toList ++ "\n".toList

def renderHtmlFooter : List Char :=
  "\n".toList ++ "</body>\n\n".toList ++ "</html>\n".toList

def generateHtmlReport (globals : FirEngineGlobals) : Except Fault (List Char) := do
  let clockFreq ← FirEngineDesc.toUnsigned globals.clockFreq
  .ok ("<h2>Feature Summary</h2>\n".toList ++ "<table class=\"t1\">\n".toList ++
    "<tr><th>FirEngineName</th><td>".toList ++ globals.firEngineName ++ "</td></tr>\n".toList ++
    "<tr><th>ClockFreq</th><td>".toList ++ unsignedText clockFreq ++ "</td></tr>\n".toList ++
    "<tr><th>NumTimeSlices</th><td>".toList ++ unsignedText globals.numTimeSlices ++
    "</td></tr>\n".toList ++ "</table>\n\n".toList)

end FirEngineGlobals

namespace FirEngineSpec

variable (showDouble : ℚ → List Char)

def dataPoint (i : Nat) (coeff : ℚ) : List Char :=
  (if 0 < i then ",\n".toList else []) ++ "\t\t\t\t\x7b x: ".toList ++ unsignedText i ++
    ", y: ".toList ++ showDouble coeff ++ " \x7d".toList

def chartOptions : List String :=
  ["\t\x7b\n", "\t\tanimationEnabled: true,\n", "\t\ttitle:\x7b\n",
    "\t\t\ttext: \"Fir Coefficients\"\n", "\t\t\x7d,\n", "\t\tdata: [\n", "\t\t\x7b\n",
    "\t\t\ttype: \"spline\", //change type to bar, line, area, pie, etc\n",
    "\t\t\tshowInLegend: true,\n", "\t\t\tdataPoints: [\n"]

def chartLegend : List String :=
  ["\n", "\t\t\t]\n", "\t\t\t\x7d\n", "\t\t],\n", "\t\tlegend: \x7b\n",
    "\t\t\tcursor: \"pointer\",\n", "\t\t\titemclick: function (e) \x7b\n",
    "\t\t\t\tif (typeof(e.dataSeries.visible) === \"undefined\" || e.dataSeries.visible) \x7b\n",
    "\t\t\t\t\te.dataSeries.visible = false;\n", "\t\t\t\t\x7d else \x7b\n",
    "\t\t\t\t\te.dataSeries.visible = true;\n", "\t\t\t\x7d\n"]

def chart (firIdx : Nat) (firSpec : FirSpec) : List Char :=
  "\tvar chart".toList ++ unsignedText firIdx ++ " = new CanvasJS.Chart(\"fir".toList ++
    unsignedText firIdx ++ "Chart\",\n".toList ++ chartOptions.flatMap String.toList ++
    firSpec.coeff.zipIdx.flatMap (fun c => dataPoint showDouble c.2 c.1) ++
    chartLegend.flatMap String.toList ++ "\t\t\tchart".toList ++ unsignedText firIdx ++
    ".render();\n".toList ++ "\t\t\t\x7d\n".toList ++ "\t\t\x7d\n".toList ++
    "\t\x7d);\n".toList ++ "\n".toList ++ "\tchart".toList ++ unsignedText firIdx ++
    ".render();\n".toList

def summary (firIdx : Nat) (firSpec : FirSpec) : List Char :=
  "<table class=\"t1\">\n".toList ++ "<tr><th>Fir#</th><td>".toList ++ unsignedText firIdx ++
    "</td></tr>\n".toList ++ "<tr><th>SampleFrequency</th><td>".toList ++
    unsignedText firSpec.sampleFreq ++ "</td></tr>\n".toList ++
    "<tr><th>NumCoefficients</th><td>".toList ++ unsignedText firSpec.coeff.length ++
    "</td></tr>\n".toList ++ "</table>\n\n".toList ++
    ("<div id=\"fir".toList ++ unsignedText firIdx ++
      "Chart\" style=\"height: 300px; width: 80%;\"></div>\n".toList) ++ "\n\n".toList

def generateHtmlReport (spec : FirEngineSpec) : List Char :=
  "<h2>FirEngine Specification</h2>\n".toList ++ "<script type=\"text/javascript\">\n".toList ++
    "window.onload = function () \x7b\n".toList ++
    spec.firSpec.zipIdx.flatMap (fun fir => chart showDouble fir.2 fir.1) ++ "\x7d\n".toList ++
    "</script>\n".toList ++ spec.firSpec.zipIdx.flatMap fun fir => summary fir.2 fir.1

end FirEngineSpec

namespace FirEngineDesc

variable (rainbow : Nat → Nat → Rgb) (d : FirEngineDesc)

def colourRow (firIdx : Nat) : List Char :=
  "<tr><td>".toList ++ unsignedText firIdx ++
    ("</td><td  style=\"background: ".toList ++ (rainbow firIdx d.numFirs).htmlColor ++
      "\"></td></tr>\n".toList)

def cell (timeSlot : Nat) (mac : FirEngineMacDesc) : List Char :=
  (match (mac.coeffRefAt timeSlot).firIndex with
    | none => "<td></td>".toList
    | some firIndex =>
      "<td style=\"background: ".toList ++ (rainbow firIndex d.numFirs).htmlColor ++
        "\">".toList) ++
    (if (mac.updateSlotAt timeSlot).isSlotEmpty then [] else "Update".toList) ++ "</td>".toList

def slotRow (timeSlot : Nat) : List Char :=
  "<tr>".toList ++ ("<td>".toList ++ unsignedText timeSlot ++ "</td>".toList) ++
    d.firEngineMacDesc.flatMap (cell rainbow d timeSlot) ++ "</tr>\n".toList

def generateHtmlReport : List Char :=
  "<h2>FirEngine Description</h2>\n".toList ++ "<table class=\"t1\">\n".toList ++
    "<tr><th>Fir#</th><th>Colour</th></tr>\n".toList ++
    (List.range d.numFirs).flatMap (colourRow rainbow d) ++ "</table>\n\n".toList ++
    "<table class=\"t1\">\n".toList ++ "<tr><th>TimeSlot</th>".toList ++
    (List.range d.firEngineMacDesc.length).flatMap (fun firMac =>
      "<th>FirMac".toList ++ unsignedText firMac ++ "</th>".toList) ++ "</tr>\n".toList ++
    (List.range d.numTimeSlots).flatMap (slotRow rainbow d) ++ "</table>\n\n".toList ++
    "<h2>Coefficient Address Map</h2>\n".toList ++ "TODO".toList

end FirEngineDesc

namespace Builder

variable (rainbow : Nat → Nat → Rgb) (showDouble : ℚ → List Char)

def htmlReport (globals : FirEngineGlobals) (spec : FirEngineSpec) (d : FirEngineDesc) :
    Except Fault (List Char) := do
  let features ← globals.generateHtmlReport
  .ok (FirEngineGlobals.renderHtmlHeader ++ features ++ spec.generateHtmlReport showDouble ++
    d.generateHtmlReport rainbow ++ FirEngineGlobals.renderHtmlFooter)

end Builder

section Colours

theorem quote_not_mem_htmlColor (c : Rgb) : '"' ∉ c.htmlColor := by
  have hread := (StringUtil.reads_toHexDigits
    ((c.r.toNat <<< 16) + (c.g.toNat <<< 8) + c.b.toNat)).zeros (by decide)
  intro hmem
  obtain hsharp | hmem := List.mem_cons.mp hmem
  · cases hsharp
  · exact (hread _).notMem (by decide) hmem

end Colours

section Pieces

variable {o : List Name} {s : List Char} {m n : Nat}

theorem not_mem_unsignedText {c : Char} (hc : c.isDigit = false) : c ∉ unsignedText n :=
  fun hmem => absurd (Nat.isDigit_of_mem_toDigits (by decide) (by decide) hmem) (by simp [hc])

theorem leads_unsignedText : Leads o (unsignedText n) o 0 := .content (not_mem_unsignedText rfl)

theorem leads_newline : Leads o "\n".toList o 0 := .literal rfl fun _ => by simp

theorem leads_tableStart : Leads o "<table class=\"t1\">\n".toList ("table".toList :: o) 0 :=
  .literal rfl fun _ => by simp

theorem leads_tableEnd : Leads ("table".toList :: o) "</table>\n\n".toList o 0 :=
  .literal rfl fun _ => by simp

theorem leads_rowEnd :
    Leads ("td".toList :: "tr".toList :: o) "</td></tr>\n".toList o 0 :=
  .literal rfl fun _ => by simp

set_option maxRecDepth 2048 in
theorem lt_not_mem_of_mem_cssText :
    ∀ line ∈ cssText.tail.dropLast, '<' ∉ line.toList := by
  simp only [cssText, List.tail_cons, List.dropLast_cons_cons, List.dropLast_singleton,
    List.forall_mem_cons, List.not_mem_nil, false_imp_iff, implies_true, and_true,
    String.toList_append, List.mem_append, not_or]
  and_intros <;> exact not_mem_toList rfl (by decide)

theorem leads_cssText :
    Leads o (cssText.flatMap fun line => line.toList ++ "\n".toList) o 0 := by
  have hcss : cssText =
      "<style type=\"text/css\">" :: (cssText.tail.dropLast ++ ["</style>"]) := rfl
  rw [hcss, List.flatMap_cons, List.flatMap_append]
  refine .quiet (p := "style".toList :: o) ?_ ?_
  · exact .quiet (.literal rfl fun _ => by simp) leads_newline
  · refine .quiet (.flatMap_quiet fun line hline => ?_) ?_
    · exact .quiet (.content (lt_not_mem_of_mem_cssText line hline)) leads_newline
    · exact .quiet (.quiet (.literal rfl fun _ => by simp) leads_newline) .nil

theorem leads_header :
    Leads [] FirEngineGlobals.renderHtmlHeader ["body".toList, "html".toList] 0 := by
  refine .quiet ?_ leads_newline
  refine .quiet (p := ["html".toList]) ?_ (.literal rfl fun _ => by simp)
  refine .quiet (p := ["head".toList, "html".toList]) ?_ (.literal rfl fun _ => by simp)
  refine .quiet (p := ["head".toList, "html".toList]) ?_ (.literal rfl fun _ => by simp)
  refine .quiet (.quiet ?_ leads_cssText) leads_newline
  refine .quiet (.quiet (p := ["head".toList, "html".toList]) ?_ ?_) leads_newline
  · refine .quiet (p := ["html".toList]) ?_ (.literal rfl fun _ => by simp)
    exact .quiet (p := []) (.literal rfl fun _ => by simp) (.literal rfl fun _ => by simp)
  · exact .literal rfl fun _ => by simp

theorem leads_footer :
    Leads ["body".toList, "html".toList] FirEngineGlobals.renderHtmlFooter [] 0 := by
  refine .quiet (p := ["html".toList]) ?_ (.literal rfl fun _ => by simp)
  exact .quiet leads_newline (.literal rfl fun _ => by simp)

theorem leads_field {start : List Char} {label : String} {value : List Char}
    (hstart : Leads o start ("table".toList :: o) 0)
    (hlabel : Leads ("table".toList :: o) label.toList
      ("td".toList :: "tr".toList :: "table".toList :: o) 0) (hvalue : '<' ∉ value) :
    Leads o (start ++ label.toList ++ value ++ "</td></tr>\n".toList) ("table".toList :: o) 0 :=
  .quiet (.quiet (.quiet hstart hlabel) (.content hvalue)) leads_rowEnd

theorem leads_features {globals : FirEngineGlobals} {text : List Char}
    (h : globals.generateHtmlReport = .ok text) (hname : '<' ∉ globals.firEngineName) :
    Leads o text o 0 := by
  obtain ⟨clockFreq, _, htext⟩ := Outcome.bind_eq_ok.mp h
  cases htext
  refine .quiet ?_ leads_tableEnd
  refine leads_field ?_ (.literal rfl fun _ => by simp) (not_mem_unsignedText rfl)
  refine leads_field ?_ (.literal rfl fun _ => by simp) (not_mem_unsignedText rfl)
  refine leads_field ?_ (.literal rfl fun _ => by simp) hname
  exact .quiet (.literal rfl fun _ => by simp) leads_tableStart

theorem leads_dataPoint {showDouble : ℚ → List Char} (h : ∀ q, '<' ∉ showDouble q) (i : Nat)
    (coeff : ℚ) : Leads o (FirEngineSpec.dataPoint showDouble i coeff) o 0 := by
  have hcomma : Leads o (if 0 < i then ",\n".toList else []) o 0 := by
    split_ifs
    · exact .plain rfl rfl
    · exact .nil
  refine .quiet (.quiet ?_ (.content (h coeff))) (.plain rfl rfl)
  exact .quiet (.quiet (.quiet hcomma (.plain rfl rfl)) leads_unsignedText) (.plain rfl rfl)

theorem lt_not_mem_of_mem_chartOptions :
    ∀ line ∈ FirEngineSpec.chartOptions, '<' ∉ line.toList := by
  simp only [FirEngineSpec.chartOptions, List.forall_mem_cons, List.not_mem_nil, false_imp_iff,
    implies_true, and_true]
  and_intros <;> exact not_mem_toList rfl (by decide)

theorem lt_not_mem_of_mem_chartLegend :
    ∀ line ∈ FirEngineSpec.chartLegend, '<' ∉ line.toList := by
  simp only [FirEngineSpec.chartLegend, List.forall_mem_cons, List.not_mem_nil, false_imp_iff,
    implies_true, and_true]
  and_intros <;> exact not_mem_toList rfl (by decide)

theorem leads_chart {showDouble : ℚ → List Char} (h : ∀ q, '<' ∉ showDouble q)
    (firIdx : Nat) (firSpec : FirSpec) :
    Leads o (FirEngineSpec.chart showDouble firIdx firSpec) o 0 := by
  refine .quiet (.quiet (.quiet ?_ (.plain rfl rfl)) leads_unsignedText) (.plain rfl rfl)
  refine .quiet (.quiet (.quiet ?_ (.plain rfl rfl)) (.plain rfl rfl)) leads_newline
  refine .quiet (.quiet (.quiet ?_ leads_unsignedText) (.plain rfl rfl)) (.plain rfl rfl)
  refine .quiet (.quiet ?_ (.lines lt_not_mem_of_mem_chartLegend)) (.plain rfl rfl)
  refine .quiet ?_ (.flatMap_quiet fun c _ => leads_dataPoint h c.2 c.1)
  refine .quiet (.quiet ?_ (.plain rfl rfl)) (.lines lt_not_mem_of_mem_chartOptions)
  refine .quiet (.quiet ?_ (.plain rfl rfl)) leads_unsignedText
  exact .quiet (.plain rfl rfl) leads_unsignedText

theorem leads_summary (firIdx : Nat) (firSpec : FirSpec) :
    Leads o (FirEngineSpec.summary firIdx firSpec) o 0 := by
  refine .quiet (.quiet (p := o) (.quiet ?_ leads_tableEnd) ?_) (.plain rfl rfl)
  · refine leads_field ?_ (.literal rfl fun _ => by simp) (not_mem_unsignedText rfl)
    refine leads_field ?_ (.literal rfl fun _ => by simp) (not_mem_unsignedText rfl)
    exact leads_field leads_tableStart (.literal rfl fun _ => by simp) (not_mem_unsignedText rfl)
  · exact .quoted (some (.opening "div".toList)) (p := o) (fun _ => by simp)
      (not_mem_unsignedText rfl) fun _ => by simp

theorem leads_specification {showDouble : ℚ → List Char} (h : ∀ q, '<' ∉ showDouble q)
    (spec : FirEngineSpec) : Leads o (spec.generateHtmlReport showDouble) o 0 := by
  have hscript : Leads ("script".toList :: o) "</script>\n".toList o 0 :=
    .literal rfl fun _ => by simp
  refine .quiet (.quiet ?_ hscript) (.flatMap_quiet fun fir _ => leads_summary fir.2 fir.1)
  refine .quiet (.quiet ?_ (.flatMap_quiet fun fir _ => leads_chart h fir.2 fir.1)) (.plain rfl rfl)
  refine .quiet (.quiet (p := o) ?_ (.literal rfl fun _ => by simp)) (.plain rfl rfl)
  exact .literal rfl fun _ => by simp

section Schedule

variable (rainbow : Nat → Nat → Rgb) (d : FirEngineDesc)

theorem leads_colourRow (firIdx : Nat) : Leads o (d.colourRow rainbow firIdx) o 0 := by
  refine .quiet (p := "td".toList :: "tr".toList :: o) ?_ ?_
  · exact .quiet (.literal rfl fun _ => by simp) leads_unsignedText
  · exact .quoted (some (.opening "td".toList)) (p := "tr".toList :: o) (fun _ => by simp)
      (quote_not_mem_htmlColor _) fun _ => by simp

def strayIn (timeSlot : Nat) (mac : FirEngineMacDesc) : Nat :=
  if (mac.coeffRefAt timeSlot).isNull then 1 else 0

theorem leads_cell (timeSlot : Nat) (mac : FirEngineMacDesc) :
    Leads ("tr".toList :: o) (d.cell rainbow timeSlot mac) ("tr".toList :: o)
      (strayIn timeSlot mac) := by
  have hupdate : ∀ {o : List Name}, Leads o
      (if (mac.updateSlotAt timeSlot).isSlotEmpty then [] else "Update".toList) o 0 := by
    intro o
    split_ifs
    · exact .nil
    · exact .plain rfl rfl
  rw [FirEngineDesc.cell, strayIn, FirCoeffRef.isNull]
  cases (mac.coeffRefAt timeSlot).firIndex with
  | none =>
    have hstray : Leads ("tr".toList :: o) "</td>".toList ("tr".toList :: o) 1 :=
      .literal rfl fun _ => by simp
    have hempty : Leads ("tr".toList :: o) "<td></td>".toList ("tr".toList :: o) 0 :=
      .literal rfl fun _ => by simp
    exact (hempty.quiet hupdate).append hstray
  | some firIndex =>
    refine .quiet (p := "td".toList :: "tr".toList :: o) (.quiet ?_ hupdate) ?_
    · exact .quoted (some (.opening "td".toList)) (p := "tr".toList :: o)
        (fun _ => by simp) (quote_not_mem_htmlColor _) fun _ => by simp
    · exact .literal rfl fun _ => by simp

theorem leads_slotRow (timeSlot : Nat) :
    Leads o (d.slotRow rainbow timeSlot) o
      (d.firEngineMacDesc.map (strayIn timeSlot)).sum := by
  have hend : Leads ("tr".toList :: o) "</tr>\n".toList o 0 := .literal rfl fun _ => by simp
  have hslot : Leads o ("<tr>".toList ++ ("<td>".toList ++ unsignedText timeSlot ++
      "</td>".toList)) ("tr".toList :: o) 0 := by
    refine .quiet (p := "tr".toList :: o) (.literal rfl fun _ => by simp) ?_
    refine .quiet (p := "td".toList :: "tr".toList :: o) ?_ (.literal rfl fun _ => by simp)
    exact .quiet (.literal rfl fun _ => by simp) leads_unsignedText
  have hcells := Leads.flatMap (o := "tr".toList :: o) (l := d.firEngineMacDesc)
    fun mac _ => leads_cell rainbow d timeSlot mac
  have hrow := (hslot.append hcells).append hend
  rwa [Nat.zero_add] at hrow

def strays : Nat :=
  ((List.range d.numTimeSlots).map fun s => (d.firEngineMacDesc.map (strayIn s)).sum).sum

theorem leads_description : Leads o (d.generateHtmlReport rainbow) o (strays d) := by
  have hslots := Leads.flatMap (o := "table".toList :: o) (l := List.range d.numTimeSlots)
    fun s _ => leads_slotRow rainbow d s
  have hbefore : Leads o ("<h2>FirEngine Description</h2>\n".toList ++
      "<table class=\"t1\">\n".toList ++ "<tr><th>Fir#</th><th>Colour</th></tr>\n".toList ++
      (List.range d.numFirs).flatMap (d.colourRow rainbow) ++ "</table>\n\n".toList ++
      "<table class=\"t1\">\n".toList ++ "<tr><th>TimeSlot</th>".toList ++
      (List.range d.firEngineMacDesc.length).flatMap (fun firMac =>
        "<th>FirMac".toList ++ unsignedText firMac ++ "</th>".toList) ++ "</tr>\n".toList)
      ("table".toList :: o) 0 := by
    refine .quiet (p := "tr".toList :: "table".toList :: o) ?_ (.literal rfl fun _ => by simp)
    refine .quiet ?_ (.flatMap_quiet fun firMac _ => ?_)
    · refine .quiet (.quiet (p := o) (.quiet ?_ leads_tableEnd) leads_tableStart) ?_
      · refine .quiet ?_ (.flatMap_quiet fun firIdx _ => leads_colourRow rainbow d firIdx)
        refine .quiet (.quiet (p := o) ?_ leads_tableStart) (.literal rfl fun _ => by simp)
        exact .literal rfl fun _ => by simp
      · exact .literal rfl fun _ => by simp
    · refine .quiet (p := "th".toList :: "tr".toList :: "table".toList :: o) ?_
        (.literal rfl fun _ => by simp)
      exact .quiet (.literal rfl fun _ => by simp) leads_unsignedText
  have hmap : Leads o "<h2>Coefficient Address Map</h2>\n".toList o 0 :=
    .literal rfl fun _ => by simp
  have htodo : Leads o "TODO".toList o 0 := .plain rfl rfl
  have hall := (((hbefore.append hslots).append leads_tableEnd).append hmap).append htodo
  rwa [Nat.zero_add] at hall

end Schedule

end Pieces

section FreeSlots

variable {spec : FirEngineSpec} {T N : Nat} {d : FirEngineDesc} {mac : FirEngineMacDesc}

theorem sum_isNull_add_countP (refs : List FirCoeffRef) :
    (refs.map fun r => if r.isNull then 1 else 0).sum + refs.countP (·.firIndex.isSome) =
      refs.length := by
  induction refs with
  | nil => rfl
  | cons r refs ih =>
    rw [List.map_cons, List.sum_cons, List.countP_cons, List.length_cons, ← ih]
    cases hr : r.firIndex <;> simp [FirCoeffRef.isNull, hr] <;> omega

theorem MacInv.strays_add_usedSlots (hinv : MacInv spec T mac) :
    ((List.range T).map (strayIn · mac)).sum + mac.usedSlots = T := by
  have hmap : (List.range T).map (strayIn · mac) =
      mac.firCoeffRef.map fun r => if r.isNull then 1 else 0 := by
    refine List.ext_getElem (by simp [hinv.refs_length]) fun s hs hs' => ?_
    have hlt : s < mac.firCoeffRef.length := by simpa using hs'
    simp [strayIn, FirEngineMacDesc.coeffRefAt, hlt]
  rw [hmap, FirEngineMacDesc.usedSlots, sum_isNull_add_countP, hinv.refs_length]

theorem sum_strays_add_usedSlots (macs : List FirEngineMacDesc)
    (hinv : ∀ mac ∈ macs, MacInv spec T mac) :
    ((List.range T).map fun s => (macs.map (strayIn s)).sum).sum +
      (macs.map FirEngineMacDesc.usedSlots).sum = macs.length * T := by
  induction macs with
  | nil => simp
  | cons mac macs ih =>
    have hmac := (hinv mac List.mem_cons_self).strays_add_usedSlots
    have hmacs := ih fun mac' hmac' => hinv mac' (List.mem_cons_of_mem mac hmac')
    simp only [List.map_cons, List.sum_cons, List.sum_map_add, List.length_cons, Nat.succ_mul]
    omega

theorem Inv.strays_add_usedSlots (hinv : Inv spec T N d) :
    strays d + (d.firEngineMacDesc.map FirEngineMacDesc.usedSlots).sum =
      d.firEngineMacDesc.length * T := by
  rw [strays, hinv.numTimeSlots]
  exact sum_strays_add_usedSlots _ hinv.macInv

theorem Inv.sum_usedSlots_eq_iff (hinv : Inv spec T N d) :
    (d.firEngineMacDesc.map FirEngineMacDesc.usedSlots).sum = d.firEngineMacDesc.length * T ↔
      ∀ mac ∈ d.firEngineMacDesc, mac.usedSlots = T := by
  have hle : ∀ n ∈ d.firEngineMacDesc.map FirEngineMacDesc.usedSlots, n ≤ T := by
    rw [List.forall_mem_map]
    exact fun mac hmac => (hinv.macInv mac hmac).usedSlots_le
  have hiff := Counting.sum_eq_length_mul_iff hle
  rwa [List.length_map, List.forall_mem_map] at hiff

end FreeSlots

theorem leads_htmlReport {rainbow : Nat → Nat → Rgb} {showDouble : ℚ → List Char}
    {globals : FirEngineGlobals} {spec : FirEngineSpec} {d : FirEngineDesc} {text : List Char}
    (h : Builder.htmlReport rainbow showDouble globals spec d = .ok text)
    (hdouble : ∀ q, '<' ∉ showDouble q) (hname : '<' ∉ globals.firEngineName) :
    Leads [] text [] (strays d) := by
  obtain ⟨features, hfeatures, htext⟩ := Outcome.bind_eq_ok.mp h
  cases htext
  have hbefore := (leads_header.quiet (leads_features hfeatures hname)).quiet
    (leads_specification hdouble spec)
  have hall := (hbefore.append (leads_description rainbow d)).append leads_footer
  rwa [Nat.zero_add] at hall

-- a slot without a coefficient is written with two closing tags
theorem report_nests_where_no_slot_is_free (rainbow : Nat → Nat → Rgb)
    (showDouble : ℚ → List Char) (hdouble : ∀ q, '<' ∉ showDouble q)
    (globals : FirEngineGlobals) (hname : '<' ∉ globals.firEngineName)
    (spec : FirEngineSpec) (d : FirEngineDesc)
    (hd : buildFirEngine spec globals.numTimeSlices = .ok d) (text : List Char)
    (h : Builder.htmlReport rainbow showDouble globals spec d = .ok text) :
    ∃ n, Reader.read {} text = ⟨.content, [], n⟩ ∧
      n + (d.firEngineMacDesc.map FirEngineMacDesc.usedSlots).sum =
        d.firEngineMacDesc.length * globals.numTimeSlices ∧
      (n = 0 ↔ ∀ mac ∈ d.firEngineMacDesc, mac.usedSlots = globals.numTimeSlices) := by
  have hinv := inv_bindFirs hd
  have hcount := hinv.strays_add_usedSlots
  refine ⟨strays d, ?_, hcount, ?_⟩
  · have hread := leads_htmlReport h hdouble hname 0
    rwa [Nat.zero_add] at hread
  · rw [← hinv.sum_usedSlots_eq_iff]
    omega

def twoFirGlobals : FirEngineGlobals where
  firEngineName := "test".toList
  clockFreq := 16
  numTimeSlices := 8

def twoFirDouble (q : ℚ) : List Char :=
  if q = 1 / 2 then "0.5".toList else if q = 1 / 4 then "0.25".toList
  else if q = -1 / 2 then "-0.5".toList else []

theorem lt_not_mem_twoFirDouble (q : ℚ) : '<' ∉ twoFirDouble q := by
  rw [twoFirDouble]
  split_ifs
  · exact not_mem_toList rfl rfl
  · exact not_mem_toList rfl rfl
  · exact not_mem_toList rfl rfl
  · exact List.not_mem_nil

theorem report_nests_where_no_slot_is_free_two_firs :
    ∃ text, Builder.htmlReport (fun f n => rainbowRgb (f / n)) twoFirDouble twoFirGlobals
        twoFirSpec twoFirDesc = .ok text ∧
      ∃ n, Reader.read {} text = ⟨.content, [], n⟩ ∧
        n + (twoFirDesc.firEngineMacDesc.map FirEngineMacDesc.usedSlots).sum =
          twoFirDesc.firEngineMacDesc.length * 8 ∧
        (n = 0 ↔ ∀ mac ∈ twoFirDesc.firEngineMacDesc, mac.usedSlots = 8) := by
  obtain ⟨text, htext, _⟩ := Outcome.exists_of_okAnd
    (x := Builder.htmlReport (fun f n => rainbowRgb (f / n)) twoFirDouble twoFirGlobals twoFirSpec
      twoFirDesc) (p := fun _ => true) (by decide +kernel)
  exact ⟨text, htext, report_nests_where_no_slot_is_free _ twoFirDouble lt_not_mem_twoFirDouble
    twoFirGlobals (by decide) twoFirSpec twoFirDesc (by decide +kernel) text htext⟩

end FirEngine
