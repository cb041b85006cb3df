import EmbeddedProjects.Lib.Numbered
import EmbeddedProjects.FirEngine.Parameters
import EmbeddedProjects.FirEngine.ReadSlots

namespace FirEngine

open FirEngineDesc Numbered

inductive Direction where
  | input
  | output
  deriving DecidableEq, Repr

structure Port where
  direction : Direction
  width : Nat := 1
  name : String
  deriving DecidableEq, Repr

structure Instance where
  moduleName : String
  instanceName : String
  connections : List (String × String)
  deriving DecidableEq, Repr

structure TopModule where
  name : String
  ports : List Port
  wires : List (Nat × String)
  assigns : List (String × String)
  instances : List Instance
  deriving DecidableEq, Repr

structure MacModule where
  name : String
  ports : List Port
  deriving DecidableEq, Repr

structure Netlist where
  top : TopModule
  macModules : List MacModule
  deriving DecidableEq, Repr

def clockPorts : List Port := [⟨.input, 1, "iClk"⟩, ⟨.input, 1, "iRst"⟩]

def dataPorts (direction : Direction) (stem : String) (n : Nat) : List Port :=
  (List.range n).flatMap fun i =>
    [⟨direction, 1, numbered stem i "Changed"⟩, ⟨direction, 18, numbered stem i ""⟩]

def coefPorts : List Port :=
  [⟨.input, 1, "iCoefBuff_wren"⟩, ⟨.input, 32, "iCoefBuff_wraddr"⟩,
    ⟨.input, 18, "iCoefBuff_wrdata"⟩]

def chainPorts : List Port :=
  [⟨.input, 18, "iChainD"⟩, ⟨.output, 18, "oChainD"⟩, ⟨.input, 18, "iChainR"⟩,
    ⟨.output, 18, "oChainR"⟩, ⟨.input, 36, "iChainS"⟩, ⟨.output, 36, "oChainS"⟩,
    ⟨.input, 1, "iInputChangeChain"⟩, ⟨.output, 1, "oInputChangeChain"⟩]

def FirEngineMacDesc.rtlHeader (mac : FirEngineMacDesc) (firEngineMacName : String) :
    MacModule where
  name := firEngineMacName
  ports := clockPorts ++ (dataPorts .input "iData" mac.inputFirs.length ++
    (dataPorts .output "oData" mac.outputFirs.length ++ (chainPorts ++ coefPorts)))

def dataConnections (stem : String) (firs : List Nat) : List (String × String) :=
  firs.zipIdx.flatMap fun ⟨f, i⟩ =>
    [(numbered stem i "Changed", numbered stem f "Changed"),
      (numbered stem i "", numbered stem f "")]

def chainConnections (macIdx : Nat) : List (String × String) :=
  [("iChainD", numbered "chainD" macIdx ""), ("oChainD", numbered "chainD" (macIdx + 1) ""),
    ("iChainR", numbered "chainR" macIdx ""), ("oChainR", numbered "chainR" (macIdx + 1) ""),
    ("iChainS", numbered "chainS" macIdx ""), ("oChainS", numbered "chainS" (macIdx + 1) ""),
    ("iInputChangeChain", numbered "inputChangeChain" macIdx ""),
    ("oInputChangeChain", numbered "inputChangeChain" (macIdx + 1) "")]

-- the instance carries no MAC index in either of its names
def FirEngineMacDesc.rtlInstance (firEngineName : String) (macIdx : Nat)
    (mac : FirEngineMacDesc) : Instance where
  moduleName := firEngineName ++ "_fir"
  instanceName := "i_" ++ firEngineName ++ "_fir"
  connections := [("iClk", "iClk"), ("iRst", "iRst")] ++ (dataConnections "iData" mac.inputFirs ++
    (dataConnections "oData" mac.outputFirs ++ (chainConnections macIdx ++
      [("iCoefBuff_wren", "1'b0"), ("iCoefBuff_wraddr", "32'b0"),
        ("iCoefBuff_wrdata", "18'b0")])))

def chainWires (macIdx : Nat) : List (Nat × String) :=
  [(18, numbered "chainD" macIdx ""), (18, numbered "chainR" macIdx ""),
    (36, numbered "chainS" macIdx ""), (1, numbered "inputChangeChain" macIdx "")]

namespace FirEngineDesc

def rtlTop (d : FirEngineDesc) (firEngineName : String) : TopModule where
  name := firEngineName
  ports := clockPorts ++ (dataPorts .input "iData" d.numFirs ++
    (dataPorts .output "oData" d.numFirs ++ coefPorts))
  wires := (List.range (d.firEngineMacDesc.length + 1)).flatMap chainWires
  assigns := [("chainD0", "18'b0"), ("chainR0", "18'b0"), ("chainS0", "36'b0"),
    ("inputChangeChain0", "1'b0")]
  instances := d.firEngineMacDesc.mapIdx (FirEngineMacDesc.rtlInstance firEngineName)

def netlist (d : FirEngineDesc) (firEngineName : String) : Netlist where
  top := d.rtlTop firEngineName
  macModules := d.firEngineMacDesc.mapIdx fun macIdx mac =>
    mac.rtlHeader (firEngineName ++ "_fir" ++ toString macIdx)

def generateRtl (sort : List FirEngineMacFifoDesc → List FirEngineMacFifoDesc)
    (d : FirEngineDesc) (firEngineName : String) (spec : FirEngineSpec) :
    Except Fault (Netlist × List RtlParameters) := do
  let parameters ← d.firEngineMacDesc.mapM (FirEngineMacDesc.generateRtl sort spec)
  .ok (d.netlist firEngineName, parameters)

end FirEngineDesc

namespace Netlist

def Drives (n : Netlist) (m : Nat) (port wire : String) : Prop :=
  ∃ inst mod, n.top.instances[m]? = some inst ∧ n.macModules[m]? = some mod ∧
    (port, wire) ∈ inst.connections ∧ ∃ p ∈ mod.ports, p.name = port ∧ p.direction = .output

structure NamesFit (n : Netlist) : Prop where
  modules : n.top.instances.map (·.moduleName) = n.macModules.map (·.name)
  instances : (n.top.instances.map (·.instanceName)).Nodup

structure PortsFit (n : Netlist) : Prop where
  ports : List.Forall₂
    (fun inst mod => (inst.connections.map Prod.fst).Perm (mod.ports.map (·.name)))
    n.top.instances n.macModules
  outputs : ∀ p ∈ n.top.ports, p.direction = .output →
    ∃! driver : Nat × String, n.Drives driver.1 driver.2 p.name
  chain : ∀ m < n.top.instances.length, ∀ wire ∈ chainWires (m + 1),
    (∃! driver : Nat × String, n.Drives driver.1 driver.2 wire.2) ∧
    (∃ port, n.Drives m port wire.2) ∧ ∀ a ∈ n.top.assigns, a.1 ≠ wire.2

structure Elaborates (n : Netlist) : Prop where
  names : n.NamesFit
  ports : n.PortsFit

end Netlist

section Emitted

variable {d : FirEngineDesc} {mac : FirEngineMacDesc} {name port wire stem : String} {m : Nat}

theorem map_fst_dataConnections (direction : Direction) (stem : String) (firs : List Nat) :
    (dataConnections stem firs).map Prod.fst =
      (dataPorts direction stem firs.length).map (·.name) := by
  rw [dataConnections, dataPorts, List.map_flatMap, List.map_flatMap, List.range_eq_range',
    ← List.zipIdx_map_snd 0 firs, List.flatMap_map]
  rfl

theorem mem_dataConnections {c : String × String} {firs : List Nat} :
    c ∈ dataConnections stem firs ↔ ∃ i f : Nat, firs[i]? = some f ∧
      (c = (numbered stem i "Changed", numbered stem f "Changed") ∨
        c = (numbered stem i "", numbered stem f "")) := by
  simp only [dataConnections, List.mem_flatMap, Prod.exists, List.mem_cons, List.not_mem_nil,
    or_false, List.mk_mem_zipIdx_iff_getElem?]
  exact exists_comm

theorem mem_dataPorts {p : Port} {direction : Direction} {n : Nat} :
    p ∈ dataPorts direction stem n ↔ ∃ i < n,
      p = ⟨direction, 1, numbered stem i "Changed"⟩ ∨ p = ⟨direction, 18, numbered stem i ""⟩ := by
  simp [dataPorts]

theorem connections_rtlInstance (name : String) (m : Nat) (mac : FirEngineMacDesc)
    (firEngineMacName : String) :
    (mac.rtlInstance name m).connections.map Prod.fst =
      (mac.rtlHeader firEngineMacName).ports.map (·.name) := by
  simp only [FirEngineMacDesc.rtlInstance, FirEngineMacDesc.rtlHeader, List.map_append,
    map_fst_dataConnections .input "iData", map_fst_dataConnections .output "oData"]
  rfl

theorem stemOf_output_port {p : Port} {firEngineMacName : String}
    (hp : p ∈ (mac.rtlHeader firEngineMacName).ports) (hout : p.direction = .output) :
    StemOf "o" p.name := by
  simp only [FirEngineMacDesc.rtlHeader, List.mem_append] at hp
  rcases hp with hp | hp | hp | hp | hp
  · have hall : ∀ q ∈ clockPorts, q.direction = .output → StemOf "o" q.name := by decide
    exact hall p hp hout
  · obtain ⟨i, _, rfl | rfl⟩ := mem_dataPorts.mp hp
    · cases hout
    · cases hout
  · have hdata : StemOf "o" "oData" := by decide
    obtain ⟨i, _, rfl | rfl⟩ := mem_dataPorts.mp hp
    · exact hdata.trans (stemOf_numbered "oData" i "Changed")
    · exact hdata.trans (stemOf_numbered "oData" i "")
  · have hall : ∀ q ∈ chainPorts, q.direction = .output → StemOf "o" q.name := by decide
    exact hall p hp hout
  · have hall : ∀ q ∈ coefPorts, q.direction = .output → StemOf "o" q.name := by decide
    exact hall p hp hout

def chainStems : List (String × String) :=
  [("oChainD", "chainD"), ("oChainR", "chainR"), ("oChainS", "chainS"),
    ("oInputChangeChain", "inputChangeChain")]

def chainOutputs (macIdx : Nat) : List (String × String) :=
  chainStems.map fun c => (c.1, numbered c.2 (macIdx + 1) "")

theorem mem_chainConnections {c : String × String} (hc : c ∈ chainConnections m)
    (hport : StemOf "o" c.1) : c ∈ chainOutputs m := by
  simp only [chainConnections, List.mem_cons, List.not_mem_nil, or_false] at hc
  rcases hc with rfl | rfl | rfl | rfl | rfl | rfl | rfl | rfl
  · exact absurd hport (by decide : ¬ StemOf "o" "iChainD")
  · simp [chainOutputs, chainStems]
  · exact absurd hport (by decide : ¬ StemOf "o" "iChainR")
  · simp [chainOutputs, chainStems]
  · exact absurd hport (by decide : ¬ StemOf "o" "iChainS")
  · simp [chainOutputs, chainStems]
  · exact absurd hport (by decide : ¬ StemOf "o" "iInputChangeChain")
  · simp [chainOutputs, chainStems]

theorem mem_connections_of_output {c : String × String}
    (hc : c ∈ (mac.rtlInstance name m).connections) (hport : StemOf "o" c.1) :
    c ∈ dataConnections "oData" mac.outputFirs ∨ c ∈ chainOutputs m := by
  simp only [FirEngineMacDesc.rtlInstance, List.mem_append] at hc
  rcases hc with hc | hc | hc | hc | hc
  · have hall : ∀ c ∈ [("iClk", "iClk"), ("iRst", "iRst")], ¬ StemOf "o" c.1 := by decide
    exact absurd hport (hall c hc)
  · have hapart : ¬ (StemOf "o" "iData" ∨ StemOf "iData" "o") := by decide
    obtain ⟨i, f, _, rfl | rfl⟩ := mem_dataConnections.mp hc
    · exact absurd (hport.comparable (stemOf_numbered "iData" i "Changed")) hapart
    · exact absurd (hport.comparable (stemOf_numbered "iData" i "")) hapart
  · exact .inl hc
  · exact .inr (mem_chainConnections hc hport)
  · have hall : ∀ c ∈ [("iCoefBuff_wren", "1'b0"), ("iCoefBuff_wraddr", "32'b0"),
        ("iCoefBuff_wrdata", "18'b0")], ¬ StemOf "o" c.1 := by decide
    exact absurd hport (hall c hc)

theorem chainOutputs_subset {c : String × String} (hc : c ∈ chainOutputs m) :
    c ∈ chainConnections m := by
  simp only [chainOutputs, chainStems, List.map_cons, List.map_nil, List.mem_cons,
    List.not_mem_nil, or_false] at hc
  rcases hc with rfl | rfl | rfl | rfl <;> simp [chainConnections]

theorem chainPort_output : ∀ c ∈ chainStems, ∃ p ∈ chainPorts, p.name = c.1 ∧
    p.direction = .output := by
  decide

theorem mem_dataPort_output {i : Nat} {p : Port} {firEngineMacName : String}
    (hi : i < mac.outputFirs.length)
    (hp : p = ⟨.output, 1, numbered "oData" i "Changed"⟩ ∨
      p = ⟨.output, 18, numbered "oData" i ""⟩) :
    p ∈ (mac.rtlHeader firEngineMacName).ports := by
  have hmem : p ∈ dataPorts .output "oData" mac.outputFirs.length := mem_dataPorts.mpr ⟨i, hi, hp⟩
  simp [FirEngineMacDesc.rtlHeader, hmem]

theorem drives_netlist : (d.netlist name).Drives m port wire ↔
    ∃ mac, d.firEngineMacDesc[m]? = some mac ∧
      ((port, wire) ∈ dataConnections "oData" mac.outputFirs ∨ (port, wire) ∈ chainOutputs m) := by
  simp only [Netlist.Drives, FirEngineDesc.netlist, rtlTop, List.getElem?_mapIdx]
  constructor
  · rintro ⟨_, _, hinst, hmod, hc, p, hp, rfl, hout⟩
    obtain ⟨mac, hmac, rfl⟩ := Option.map_eq_some_iff.mp hinst
    rw [hmac, Option.map_some, Option.some.injEq] at hmod
    subst hmod
    exact ⟨mac, hmac, mem_connections_of_output hc (stemOf_output_port hp hout)⟩
  · rintro ⟨mac, hmac, hc⟩
    rw [hmac]
    refine ⟨_, _, rfl, rfl, ?_, ?_⟩
    · rw [FirEngineMacDesc.rtlInstance]
      simp only [List.mem_append]
      rcases hc with hc | hc
      · exact .inr (.inr (.inl hc))
      · exact .inr (.inr (.inr (.inl (chainOutputs_subset hc))))
    · rcases hc with hc | hc
      · obtain ⟨i, f, hf, heq⟩ := mem_dataConnections.mp hc
        have hi : i < mac.outputFirs.length := (List.getElem?_eq_some_iff.mp hf).1
        rcases heq with heq | heq
        · exact ⟨_, mem_dataPort_output hi (.inl rfl), (Prod.mk.inj heq).1.symm, rfl⟩
        · exact ⟨_, mem_dataPort_output hi (.inr rfl), (Prod.mk.inj heq).1.symm, rfl⟩
      · obtain ⟨c, hstem, heq⟩ := List.mem_map.mp hc
        obtain ⟨p, hp, hname, hout⟩ := chainPort_output c hstem
        refine ⟨p, ?_, hname.trans (Prod.mk.inj heq).1, hout⟩
        simp [FirEngineMacDesc.rtlHeader, hp]

theorem not_startsWithDigit_suffix : ∀ s ∈ ["Changed", ""], ¬ StartsWithDigit s := by decide

theorem drives_data {K : Nat} {suffix : String} (hs : suffix ∈ ["Changed", ""]) :
    (d.netlist name).Drives m port (numbered "oData" K suffix) ↔
      ∃ mac, d.firEngineMacDesc[m]? = some mac ∧
        ∃ i : Nat, mac.outputFirs[i]? = some K ∧ port = numbered "oData" i suffix := by
  have hdigit := not_startsWithDigit_suffix
  rw [drives_netlist]
  refine exists_congr fun mac => and_congr_right fun _ => ?_
  constructor
  · rintro (hc | hc)
    · obtain ⟨i, f, hf, heq | heq⟩ := mem_dataConnections.mp hc
      · obtain ⟨rfl, hwire⟩ := Prod.mk.inj heq
        obtain ⟨rfl, rfl⟩ := (numbered_inj (hdigit _ hs) (hdigit _ (by simp))).mp hwire
        exact ⟨i, hf, rfl⟩
      · obtain ⟨rfl, hwire⟩ := Prod.mk.inj heq
        obtain ⟨rfl, rfl⟩ := (numbered_inj (hdigit _ hs) (hdigit _ (by simp))).mp hwire
        exact ⟨i, hf, rfl⟩
    · have hapart : ∀ c ∈ chainStems, ¬ (StemOf "oData" c.2 ∨ StemOf c.2 "oData") := by decide
      obtain ⟨c, hstem, heq⟩ := List.mem_map.mp hc
      have hwire := stemOf_numbered c.2 (m + 1) ""
      rw [(Prod.mk.inj heq).2] at hwire
      exact absurd ((stemOf_numbered "oData" K suffix).comparable hwire) (hapart c hstem)
  · rintro ⟨i, hi, rfl⟩
    refine .inl (mem_dataConnections.mpr ⟨i, K, hi, ?_⟩)
    simp only [List.mem_cons, List.not_mem_nil, or_false] at hs
    rcases hs with rfl | rfl
    · exact .inl rfl
    · exact .inr rfl

theorem chainStems_apart : ∀ c ∈ chainStems, ∀ c' ∈ chainStems,
    StemOf c.2 c'.2 ∨ StemOf c'.2 c.2 → c = c' := by
  decide

theorem chainWire_inj {c c' : String × String} (hc : c ∈ chainStems) (hc' : c' ∈ chainStems)
    {j k : Nat} (h : numbered c.2 j "" = numbered c'.2 k "") : c = c' ∧ j = k := by
  have hstem := stemOf_numbered c.2 j ""
  rw [h] at hstem
  have hcc := chainStems_apart c hc c' hc' (hstem.comparable (stemOf_numbered c'.2 k ""))
  subst hcc
  have hdigit := not_startsWithDigit_suffix "" (by simp)
  exact ⟨rfl, ((numbered_inj hdigit hdigit).mp h).1⟩

theorem drives_chain {c : String × String} (hc : c ∈ chainStems) {k : Nat} :
    (d.netlist name).Drives m port (numbered c.2 (k + 1) "") ↔
      m = k ∧ m < d.firEngineMacDesc.length ∧ port = c.1 := by
  rw [drives_netlist]
  constructor
  · rintro ⟨mac, hmac, hdata | hchain⟩
    · have hapart : ∀ c ∈ chainStems, ¬ (StemOf "oData" c.2 ∨ StemOf c.2 "oData") := by decide
      obtain ⟨i, f, _, heq | heq⟩ := mem_dataConnections.mp hdata
      · have hwire := stemOf_numbered c.2 (k + 1) ""
        rw [(Prod.mk.inj heq).2] at hwire
        exact absurd ((stemOf_numbered "oData" f "Changed").comparable hwire) (hapart c hc)
      · have hwire := stemOf_numbered c.2 (k + 1) ""
        rw [(Prod.mk.inj heq).2] at hwire
        exact absurd ((stemOf_numbered "oData" f "").comparable hwire) (hapart c hc)
    · obtain ⟨c', hc', heq⟩ := List.mem_map.mp hchain
      obtain ⟨rfl, hwire⟩ := Prod.mk.inj heq
      obtain ⟨rfl, hmk⟩ := chainWire_inj hc' hc hwire
      exact ⟨by omega, (List.getElem?_eq_some_iff.mp hmac).1, rfl⟩
  · rintro ⟨rfl, hm, rfl⟩
    exact ⟨_, List.getElem?_eq_getElem hm, .inr (List.mem_map.mpr ⟨c, hc, rfl⟩)⟩

theorem mem_chainWires {k : Nat} {wire : Nat × String} (h : wire ∈ chainWires k) :
    ∃ c ∈ chainStems, wire.2 = numbered c.2 k "" := by
  simp only [chainWires, List.mem_cons, List.not_mem_nil, or_false] at h
  rcases h with rfl | rfl | rfl | rfl <;> simp [chainStems]

theorem output_topPort {p : Port} (hp : p ∈ (d.rtlTop name).ports)
    (hout : p.direction = .output) :
    ∃ K < d.numFirs, ∃ suffix ∈ ["Changed", ""], p.name = numbered "oData" K suffix := by
  simp only [rtlTop, List.mem_append] at hp
  rcases hp with hp | hp | hp | hp
  · have hall : ∀ q ∈ clockPorts, q.direction ≠ .output := by decide
    exact absurd hout (hall p hp)
  · obtain ⟨i, _, rfl | rfl⟩ := mem_dataPorts.mp hp
    · cases hout
    · cases hout
  · obtain ⟨K, hK, rfl | rfl⟩ := mem_dataPorts.mp hp
    · exact ⟨K, hK, "Changed", by simp, rfl⟩
    · exact ⟨K, hK, "", by simp, rfl⟩
  · have hall : ∀ q ∈ coefPorts, q.direction ≠ .output := by decide
    exact absurd hout (hall p hp)

theorem ports_netlist : List.Forall₂
    (fun inst mod => (inst.connections.map Prod.fst).Perm (mod.ports.map (·.name)))
    (d.netlist name).top.instances (d.netlist name).macModules := by
  refine List.forall₂_iff_get.mpr ⟨by simp [FirEngineDesc.netlist, rtlTop], fun m hi hm => ?_⟩
  simp only [FirEngineDesc.netlist, rtlTop, List.get_eq_getElem, List.getElem_mapIdx]
  rw [connections_rtlInstance]

theorem chain_netlist {m : Nat} (hm : m < d.firEngineMacDesc.length) {wire : Nat × String}
    (hwire : wire ∈ chainWires (m + 1)) :
    (∃! driver : Nat × String, (d.netlist name).Drives driver.1 driver.2 wire.2) ∧
    (∃ port, (d.netlist name).Drives m port wire.2) ∧
    ∀ a ∈ (d.netlist name).top.assigns, a.1 ≠ wire.2 := by
  obtain ⟨c, hc, heq⟩ := mem_chainWires hwire
  rw [heq]
  refine ⟨⟨(m, c.1), (drives_chain hc).mpr ⟨rfl, hm, rfl⟩, ?_⟩, ⟨c.1, (drives_chain hc).mpr
    ⟨rfl, hm, rfl⟩⟩, ?_⟩
  · rintro ⟨m', port⟩ hdrives
    obtain ⟨rfl, _, rfl⟩ := (drives_chain hc).mp hdrives
    rfl
  · have hassigns : ∀ a ∈ [("chainD0", "18'b0"), ("chainR0", "18'b0"), ("chainS0", "36'b0"),
        ("inputChangeChain0", "1'b0")], ∃ c ∈ chainStems, a.1 = numbered c.2 0 "" := by decide
    intro a ha hwire
    obtain ⟨c', hc', hname⟩ := hassigns a ha
    rw [hname] at hwire
    exact absurd (chainWire_inj hc' hc hwire).2 (by omega)

theorem namesFit_iff : (d.netlist name).NamesFit ↔ d.firEngineMacDesc = [] := by
  constructor
  · intro h
    cases hmacs : d.firEngineMacDesc with
    | nil => rfl
    | cons mac macs =>
      have hmodules := h.modules
      simp only [FirEngineDesc.netlist, rtlTop, hmacs, List.mapIdx_cons, List.map_cons] at hmodules
      exact absurd (List.cons_eq_cons.mp hmodules).1 (ne_append_toString _ 0)
  · intro h
    constructor <;> simp [FirEngineDesc.netlist, rtlTop, h]

end Emitted

theorem portsFit_bindFirs {spec : FirEngineSpec} {T n : Nat} {d : FirEngineDesc} {name : String}
    (h : bindFirs spec T n = .ok d) : (d.netlist name).PortsFit where
  ports := ports_netlist
  outputs := by
    intro p hp hout
    have hinv := inv_bindFirs h
    obtain ⟨K, hK, suffix, hs, hname⟩ := output_topPort hp hout
    rw [hinv.numFirs] at hK
    obtain ⟨m, mac, hmac, hmem⟩ := hinv.cover K hK
    obtain ⟨i, hi⟩ := List.getElem?_of_mem hmem
    have hout := (hinv.mac hmac).outputs
    rw [hname]
    refine ⟨(m, numbered "oData" i suffix), (drives_data hs).mpr ⟨mac, hmac, i, ?_, rfl⟩, ?_⟩
    · rw [hout]
      exact hi
    · rintro ⟨m', port⟩ hdrives
      obtain ⟨mac', hmac', i', hi', rfl⟩ := (drives_data hs).mp hdrives
      rw [(hinv.mac hmac').outputs] at hi'
      obtain rfl := hinv.unique hmac hmac' K hmem (List.mem_of_getElem? hi')
      rw [hmac, Option.some.injEq] at hmac'
      subst hmac'
      have hlt : i < mac.inputFirs.length := (List.getElem?_eq_some_iff.mp hi).1
      have hii : i = i' := (List.getElem?_inj hlt (hinv.mac hmac).nodup).mp (hi.trans hi'.symm)
      rw [hii]
  chain := by
    intro m hm wire hwire
    have hlen : m < d.firEngineMacDesc.length := by
      simpa [FirEngineDesc.netlist, rtlTop] using hm
    exact chain_netlist hlen hwire

theorem generateRtl_ports_fit {sort : List FirEngineMacFifoDesc → List FirEngineMacFifoDesc}
    {spec : FirEngineSpec} {T : Nat} {d : FirEngineDesc} {name : String} {n : Netlist}
    {parameters : List RtlParameters} (hd : buildFirEngine spec T = .ok d)
    (h : d.generateRtl sort name spec = .ok (n, parameters)) :
    n.PortsFit ∧ parameters.length = n.macModules.length := by
  obtain ⟨ps, hps, h⟩ := Outcome.bind_eq_ok.mp h
  simp only [Except.ok.injEq, Prod.mk.injEq] at h
  obtain ⟨rfl, rfl⟩ := h
  exact ⟨portsFit_bindFirs hd, by simp [FirEngineDesc.netlist, Outcome.length_of_mapM hps]⟩

theorem bindCalls_ne_nil (calls : List Call) {d d' : FirEngineDesc}
    (h : bindCalls d calls = .ok d') (hd : d.firEngineMacDesc ≠ []) :
    d'.firEngineMacDesc ≠ [] :=
  bindCalls_invariant (fun _ hb => List.ne_nil_of_mem (List.mem_of_getElem? hb.target)) calls hd h

theorem bindCalls_eq_nil_iff {T : Nat} {calls : List Call} {d : FirEngineDesc}
    (h : bindCalls { numTimeSlots := T } calls = .ok d) :
    d.firEngineMacDesc = [] ↔ calls = [] := by
  cases calls with
  | nil =>
    cases h
    simp
  | cons call calls =>
    obtain ⟨d₁, h₁, hrest⟩ := Outcome.bind_eq_ok.mp h
    obtain ⟨firSpec, b, hb⟩ := bindFir_eq_ok h₁
    simpa using bindCalls_ne_nil calls hrest (List.ne_nil_of_mem (List.mem_of_getElem? hb.target))

theorem netlist_elaborates_iff (T : Nat) (calls : List Call) (d : FirEngineDesc)
    (h : bindCalls { numTimeSlots := T } calls = .ok d) (firEngineName : String) :
    (d.netlist firEngineName).Elaborates ↔ calls = [] := by
  rw [← bindCalls_eq_nil_iff h]
  constructor
  · intro helab
    exact namesFit_iff.mp helab.names
  · intro hnil
    refine ⟨namesFit_iff.mpr hnil, ?_⟩
    obtain rfl := (bindCalls_eq_nil_iff h).mp hnil
    cases h
    have hbind : bindFirs twoFirSpec T 0 = .ok { numTimeSlots := T } := rfl
    exact portsFit_bindFirs hbind

theorem netlist_elaborates_iff_two_firs :
    (twoFirDesc.netlist "test").Elaborates ↔ [(twoFirSpec, 0), (twoFirSpec, 1)] = [] :=
  netlist_elaborates_iff 8 _ _ (by decide +kernel) _

theorem two_firs_do_not_elaborate :
    ∃ d, bindCalls { numTimeSlots := 8 } [(twoFirSpec, 0), (twoFirSpec, 1)] = .ok d ∧
      ¬ (d.netlist "test").Elaborates := by
  refine ⟨twoFirDesc, by decide +kernel, fun h => ?_⟩
  have hnil : twoFirDesc.firEngineMacDesc = [] := namesFit_iff.mp h.names
  simp [twoFirDesc] at hnil

end FirEngine
