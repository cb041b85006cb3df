import EmbeddedProjects.FirEngine.CommandLine
import EmbeddedProjects.FirEngine.Netlist
import EmbeddedProjects.FirEngine.SpecText
import EmbeddedProjects.FirEngine.Filter

namespace FirEngine

open FirEngineDesc FirEngineMacDesc Rtl FirEngineGlobals SpecText SpecLines Decimal

inductive Ending where
  | exit (stdout stderr : List String)
  | abort
  | written (netlist : Netlist) (parameters : List RtlParameters)

namespace Builder

section Program

variable (stod : List Char → Option ℚ) (strtod : List Char → ℚ)
  (sort : List FirEngineMacFifoDesc → List FirEngineMacFifoDesc)

def banner : List String :=
  ["///////////////////////////////////////////////////\n", "FirEngine Builder version 1.0.0\n",
    "///////////////////////////////////////////////////\n"]

def unableToOpen (fname : List Char) : String :=
  "Unable to open FirEngine-Specification file '" ++ String.ofList fname ++ "'\n"

def fileName (globals : FirEngineGlobals) : List Char := globals.firEngineName ++ ".fsp".toList

def buildFrom (globals : FirEngineGlobals) (contents : List Char) :
    Except Fault (Netlist × List RtlParameters) := do
  let firEngineSpec ← FirEngineSpec.readFromFile strtod { clockFreq := globals.clockFreq }
    (fresh contents)
  let firEngineDesc ← buildFirEngine firEngineSpec globals.numTimeSlices
  firEngineDesc.generateRtl sort (String.ofList globals.firEngineName) firEngineSpec

def main (files : List Char → Option (List Char)) (argv : List Arg) : Ending :=
  match parseArgs stod argv with
  | .error (.exit stdout stderr) => .exit (banner ++ stdout) stderr
  | .error .uncaught => .abort
  | .ok globals =>
    match files (fileName globals) with
    | none => .exit (banner ++ [unableToOpen (fileName globals)]) []
    | some contents =>
      match buildFrom strtod sort globals contents with
      | .error (.thrown errMsg) => .exit (banner ++ ["Error: " ++ errMsg ++ "\n"]) []
      | .error _ => .abort
      | .ok (netlist, parameters) => .written netlist parameters

end Program

section Written

variable {stod : List Char → Option ℚ} {strtod : List Char → ℚ}
  {sort : List FirEngineMacFifoDesc → List FirEngineMacFifoDesc}
  {files : List Char → Option (List Char)} {argv : List Arg} {netlist : Netlist}
  {parameters : List RtlParameters}

theorem main_eq_written (h : main stod strtod sort files argv = .written netlist parameters) :
    ∃ globals contents, parseArgs stod argv = .ok globals ∧
      files (fileName globals) = some contents ∧
      buildFrom strtod sort globals contents = .ok (netlist, parameters) := by
  rw [main] at h
  split at h
  · cases h
  · cases h
  · next globals hparse =>
    split at h
    · cases h
    · next contents hfile =>
      split at h
      · cases h
      · cases h
      · next hbuild =>
        cases h
        exact ⟨globals, contents, hparse, hfile, hbuild⟩

theorem buildFrom_eq_ok {globals : FirEngineGlobals} {contents : List Char}
    (h : buildFrom strtod sort globals contents = .ok (netlist, parameters)) :
    ∃ spec d, FirEngineSpec.readFromFile strtod { clockFreq := globals.clockFreq }
        (fresh contents) = .ok spec ∧
      buildFirEngine spec globals.numTimeSlices = .ok d ∧
      netlist = d.netlist (String.ofList globals.firEngineName) ∧
      d.firEngineMacDesc.mapM (FirEngineMacDesc.generateRtl sort spec) = .ok parameters := by
  obtain ⟨spec, hread, h⟩ := Outcome.bind_eq_ok.mp h
  obtain ⟨d, hbuild, h⟩ := Outcome.bind_eq_ok.mp h
  obtain ⟨ps, hps, h⟩ := Outcome.bind_eq_ok.mp h
  obtain ⟨rfl, rfl⟩ := Prod.mk.inj (Except.ok.inj h)
  exact ⟨spec, d, hread, hbuild, rfl, hps⟩

theorem specOf_firsOf (clockFreq : ℚ) {entries : List SpecText.Entry} {f : Nat}
    (hf : f < (firsOf Numeral.value entries).length) :
    FirEngineSpec.specOf ⟨clockFreq, firsOf Numeral.value entries⟩ f =
      firOf Numeral.value entries f := by
  have hget : (firsOf Numeral.value entries)[f]? = some (firOf Numeral.value entries f) := by
    rw [List.getElem?_eq_getElem hf]
    simp only [firsOf, List.getElem_map, List.getElem_range]
  rw [FirEngineSpec.specOf, List.getD_eq_getElem?_getD, hget]
  rfl

theorem main_written (hstrtod : ConvertsLongest strtod) {prog : Arg} {args : List Arg}
    {opts : List (Char × Arg)} {name : Arg} (hline : Written args opts [name])
    (hopts : ∀ o ∈ opts, Converts stod o) (contents : List Char)
    (hfile : files (name ++ ".fsp".toList) = some contents) {entries : List SpecText.Entry}
    (hentries : List.Forall₂ (fun e l => l ∈ SpecText.Entry.texts e) entries
      (splitLines contents)) (hfits : ∀ e ∈ entries, e.Fits)
    (hmain : main stod strtod sort files (prog :: args) = .written netlist parameters)
    {d : FirEngineDesc}
    (h : buildFirEngine ⟨(after stod {} opts).clockFreq, firsOf Numeral.value entries⟩
      (after stod {} opts).numTimeSlices = .ok d) :
    netlist = d.netlist (String.ofList name) ∧
      d.firEngineMacDesc.mapM (FirEngineMacDesc.generateRtl sort
        ⟨(after stod {} opts).clockFreq, firsOf Numeral.value entries⟩) = .ok parameters := by
  obtain ⟨globals, text, hparse, hopen, hbuild⟩ := main_eq_written hmain
  rw [parseArgs_written hline hopts] at hparse
  obtain rfl := Except.ok.inj hparse
  obtain rfl : contents = text := Option.some.inj (hfile.symm.trans hopen)
  obtain ⟨spec, d', hread, hd', hnet, hps⟩ := buildFrom_eq_ok hbuild
  rw [readFromFile_entries_exact hstrtod _ hentries hfits] at hread
  obtain rfl := Except.ok.inj hread
  obtain rfl : d = d' := Except.ok.inj (h.symm.trans hd')
  exact ⟨hnet, hps⟩

end Written

variable {δ : Type}

theorem command_line_to_hardware (stod : List Char → Option ℚ) (strtod : List Char → ℚ)
    (hstrtod : ConvertsLongest strtod)
    (sort : List FirEngineMacFifoDesc → List FirEngineMacFifoDesc) (hsort : IsSort sort)
    (files : List Char → Option (List Char)) (prog : Arg) (args : List Arg)
    (opts : List (Char × Arg)) (name : Arg) (hline : Written args opts [name])
    (hopts : ∀ o ∈ opts, Converts stod o) (contents : List Char)
    (hfile : files (name ++ ".fsp".toList) = some contents) (entries : List SpecText.Entry)
    (hentries : List.Forall₂ (fun e l => l ∈ SpecText.Entry.texts e) entries
      (splitLines contents))
    (hfits : ∀ e ∈ entries, e.Fits) (netlist : Netlist) (parameters : List RtlParameters)
    (hmain : main stod strtod sort files (prog :: args) = .written netlist parameters)
    (spec : FirEngineSpec)
    (hspec : spec = ⟨(after stod {} opts).clockFreq, firsOf Numeral.value entries⟩)
    (T : Nat) (hT : T = (after stod {} opts).numTimeSlices) (d : FirEngineDesc)
    (h : buildFirEngine spec T = .ok d) (m : Nat) (mac : FirEngineMacDesc)
    (hmac : d.firEngineMacDesc[m]? = some mac) (R : Run δ) (hR : parameters[m]? = some R.p)
    (lag : Nat) (hlag : lag ≤ 1) (hdsp : MulAccumulates lag R.dsp)
    (hslices : R.p.timeSlices = 2 ^ R.p.log2TimeSlices)
    (hon : PowerOn R.p R.s₀) (r : Nat) (hr : 2 ≤ r) (hreset : ResetFor r R.env)
    (hoff : ∀ k, (R.env k).iCoefBuffWren = false)
    (hpaced : ∀ f ∈ mac.inputFirs, Paced spec T f) (horder : FifosInSizeOrder spec mac)
    (f i : Nat) (hi : mac.inputFirs[i]? = some f)
    (hidle : (R.state (r + 3)).inputLatch.changedPs1 i =
      (R.state (r + 3)).channels.prevChanged i)
    (hsender : Run.Announces R i
      (roundedInterval T spec.clockFreq (firOf Numeral.value entries f).sampleFreq) (r + 3))
    (u : Nat) (hfirst : (firOf Numeral.value entries f).coeff.length ≤ u + 1)
    (hslot : mac.firUpdateSlot[R.slot u]? = some ⟨some f⟩) :
    netlist = d.netlist (String.ofList name) ∧
      ∃ samples rest, Toggle.collect (fun j => R.announcedAt i (r + 3 + j)) (u - 1) =
          samples ++ rest ∧ rest.length ≤ 1 ∧
        (rest ≠ [] → ∃ k < u - 1,
          u - 1 ≤ k +
            roundedInterval T spec.clockFreq (firOf Numeral.value entries f).sampleFreq ∧
          (R.announcedAt i (r + 3 + k)).isSome) ∧
        (R.state (r + u + 11)).dataOutputs.oData i =
          laggedFilterWord lag (firOf Numeral.value entries f).coeff
            (R.state (r + u + 7)).coefBuff.rddata samples ∧
        (lag = 0 → (R.state (r + u + 11)).dataOutputs.oData i =
          filterWord (firOf Numeral.value entries f).coeff samples) := by
  subst hspec hT
  obtain ⟨hnet, hps⟩ := main_written hstrtod hline hopts contents hfile hentries hfits hmain h
  have hmem := List.mem_of_getElem? hmac
  obtain ⟨p, hp, hgenerate⟩ := Outcome.getElem?_of_mapM hps hmac
  obtain rfl := Option.some.inj (hR.symm.trans hp)
  have hb := builtMac_of_buildFirEngine h hmem
  have hspecOf := specOf_firsOf (after stod {} opts).clockFreq
    (hb.bound f (List.mem_of_getElem? hi))
  rw [← hspecOf] at hsender hfirst ⊢
  obtain ⟨rest, hcollect, hlen, hlast⟩ := collect_announced _ _ d h mac hmem sort hsort R
    hgenerate hslices r hr hreset hpaced f i hi hidle hsender u hfirst
  have hword := paced_mac_filters _ _ d h mac hmem sort hsort R hlag hdsp hgenerate hslices hon r
    hr hreset hoff hpaced horder f i u hfirst hslot hi
  refine ⟨hnet, R.samples i (r + u + 4), rest, hcollect, hlen, hlast, hword, ?_⟩
  rintro rfl
  rw [hword, laggedFilterWord_zero]

def minusSign (minus : Bool) : Option Char := if minus then some '-' else none

theorem minusSign_mem (minus : Bool) : ∀ c ∈ minusSign minus, c ∈ ['+', '-'] := by
  cases minus <;> simp [minusSign]

theorem isDigit_toDigits (n : Nat) :
    ∀ c ∈ [] ++ (some (Nat.toDigits 10 n)).getD [], c.isDigit = true :=
  fun c hc => Nat.isDigit_of_mem_toDigits (by decide) (by decide) hc

def fraction (minus : Bool) (n : Nat) : Numeral :=
  ⟨minusSign minus, [], some (Nat.toDigits 10 n), none, minusSign_mem minus, isDigit_toDigits n,
    Nat.toDigits_ne_nil⟩

def pacedEntries : List SpecText.Entry :=
  [.sampleRate 0 2,
    .coeff 0 [fraction false 25, fraction false 125, fraction false 25, fraction true 25]]

def pacedArgs : List Arg := [['-', 'f'], ['1', '6'], ['-', 't', '8'], ['f', 'i', 'r']]

def pacedOptions : List (Char × Arg) := [('f', ['1', '6']), ('t', ['8'])]

def readSome (s : List Char) : Option ℚ := some (read s)

theorem written_pacedArgs : Written pacedArgs pacedOptions [['f', 'i', 'r']] :=
  .separate (by simp) (.attached (by simp) (by simp) (.operands (by simp)))

theorem converts_pacedOptions : ∀ o ∈ pacedOptions, Converts readSome o := by
  intro o ho
  simp only [pacedOptions, List.mem_cons, List.not_mem_nil, or_false] at ho
  rcases ho with rfl | rfl
  · rfl
  · change (stoi ['8']).isSome = true
    decide +kernel

theorem fits_pacedEntries : ∀ e ∈ pacedEntries, e.Fits := by
  simp [pacedEntries, SpecText.Entry.Fits, fraction]

theorem firOf_pacedEntries :
    firOf Numeral.value pacedEntries 0 = ⟨2, [1 / 4, 1 / 8, 1 / 4, -1 / 4]⟩ := by
  decide +kernel

theorem pacedSpec_eq :
    pacedSpec =
      ⟨(after readSome {} pacedOptions).clockFreq, firsOf Numeral.value pacedEntries⟩ := by
  decide +kernel

theorem main_pacedArgs : ∃ netlist parameters,
    main readSome read insertionSortByMemWords (fun _ => some (document pacedEntries))
      ([] :: pacedArgs) = .written netlist parameters := by
  obtain ⟨⟨netlist, parameters⟩, hbuild, -⟩ := Outcome.exists_of_okAnd
    (x := buildFrom read insertionSortByMemWords
      { after readSome {} pacedOptions with firEngineName := ['f', 'i', 'r'] }
      (document pacedEntries)) (p := fun _ => true) (by decide +kernel)
  refine ⟨netlist, parameters, ?_⟩
  rw [main, parseArgs_written written_pacedArgs converts_pacedOptions]
  simp only [countNames, hbuild]

theorem command_line_to_hardware_pacedArgs :
    ∃ netlist parameters,
      main readSome read insertionSortByMemWords (fun _ => some (document pacedEntries))
          ([] :: pacedArgs) = .written netlist parameters ∧
      ∃ samples rest, Toggle.collect (fun j => pacedRun.announcedAt 0 (5 + j)) 15 =
          samples ++ rest ∧ rest.length ≤ 1 ∧
        (pacedRun.state 29).dataOutputs.oData 0 =
          laggedFilterWord 1 (firOf Numeral.value pacedEntries 0).coeff
            (pacedRun.state 25).coefBuff.rddata samples := by
  obtain ⟨netlist, parameters, hmain⟩ := main_pacedArgs
  obtain ⟨d, mac, hd, hmac, hfirs, hslot, hp⟩ := generated_pacedSpec
  obtain ⟨m, hm⟩ := List.getElem?_of_mem hmac
  have hlines : List.Forall₂ (fun e l => l ∈ SpecText.Entry.texts e) pacedEntries
      (splitLines (document pacedEntries)) := by
    rw [splitLines_document fits_pacedEntries]
    exact forall₂_render fits_pacedEntries
  have hT : 8 = (after readSome {} pacedOptions).numTimeSlices := by decide +kernel
  have hps := (main_written read_convertsLongest written_pacedArgs converts_pacedOptions
    (document pacedEntries) rfl hlines fits_pacedEntries hmain (pacedSpec_eq ▸ hT ▸ hd)).2
  have hR : parameters[m]? = some pacedRun.p := by
    obtain ⟨p, hm', hp'⟩ := Outcome.getElem?_of_mapM hps hm
    rw [← pacedSpec_eq] at hp'
    rw [hm', ← Except.ok.inj (hp.symm.trans hp')]
    rfl
  obtain ⟨_, samples, rest, hcollect, hlen, _, hword, _⟩ := command_line_to_hardware readSome read
    read_convertsLongest insertionSortByMemWords isSort_insertionSortByMemWords
    (fun _ => some (document pacedEntries)) [] pacedArgs pacedOptions ['f', 'i', 'r']
    written_pacedArgs converts_pacedOptions (document pacedEntries) rfl pacedEntries
    hlines fits_pacedEntries netlist parameters hmain pacedSpec pacedSpec_eq 8 hT
    d hd m mac hm pacedRun hR 1 le_rfl (mulAccumulates_dsp48e2 (.inl rfl)) rfl
    (powerOn_zeroState _ _) 2 le_rfl (fun _ => rfl) (fun _ => rfl) (paced_pacedSpec hfirs)
    (by rw [FifosInSizeOrder, hfirs]; exact List.pairwise_singleton _ _) 0 0
    (by rw [hfirs]; rfl) (by decide +kernel) (by rw [firOf_pacedEntries]; exact announces_pacedRun)
    16 (by rw [firOf_pacedEntries]; decide) hslot
  exact ⟨netlist, parameters, hmain, samples, rest, hcollect, hlen, hword⟩

end Builder

end FirEngine
