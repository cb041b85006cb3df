import EmbeddedProjects.Adc.Delivery
import EmbeddedProjects.Adc.Driver
import EmbeddedProjects.Adc.Generator
import EmbeddedProjects.Adc.Reader
import EmbeddedProjects.Adc.Simulation
import EmbeddedProjects.Adc.Virtual
import EmbeddedProjects.Drivers.Lifecycle
import EmbeddedProjects.FirEngine.Binding
import EmbeddedProjects.FirEngine.Builder
import EmbeddedProjects.FirEngine.Calls
import EmbeddedProjects.FirEngine.Capacity
import EmbeddedProjects.FirEngine.CoeffImage
import EmbeddedProjects.FirEngine.CoeffPort
import EmbeddedProjects.FirEngine.CoeffText
import EmbeddedProjects.FirEngine.CommandLine
import EmbeddedProjects.FirEngine.Commits
import EmbeddedProjects.FirEngine.ControlVectors
import EmbeddedProjects.FirEngine.Convolution
import EmbeddedProjects.FirEngine.DataMemory
import EmbeddedProjects.FirEngine.DataOutputs
import EmbeddedProjects.FirEngine.Desc
import EmbeddedProjects.FirEngine.DspSlice
import EmbeddedProjects.FirEngine.FifoLayout
import EmbeddedProjects.FirEngine.FifoNumbering
import EmbeddedProjects.FirEngine.FifoRegion
import EmbeddedProjects.FirEngine.FifoWords
import EmbeddedProjects.FirEngine.Filter
import EmbeddedProjects.FirEngine.FixedPoint
import EmbeddedProjects.FirEngine.Generated
import EmbeddedProjects.FirEngine.Handshake
import EmbeddedProjects.FirEngine.IntUtils
import EmbeddedProjects.FirEngine.IntegerText
import EmbeddedProjects.FirEngine.Invariant
import EmbeddedProjects.FirEngine.Isolation
import EmbeddedProjects.FirEngine.LineEndings
import EmbeddedProjects.FirEngine.MacDesc
import EmbeddedProjects.FirEngine.MatchContract
import EmbeddedProjects.FirEngine.Netlist
import EmbeddedProjects.FirEngine.Ownership
import EmbeddedProjects.FirEngine.Packing
import EmbeddedProjects.FirEngine.ParameterText
import EmbeddedProjects.FirEngine.Parameters
import EmbeddedProjects.FirEngine.Passes
import EmbeddedProjects.FirEngine.Periodicity
import EmbeddedProjects.FirEngine.Pipeline
import EmbeddedProjects.FirEngine.Prototype
import EmbeddedProjects.FirEngine.Reachable
import EmbeddedProjects.FirEngine.ReadSlots
import EmbeddedProjects.FirEngine.Refusals
import EmbeddedProjects.FirEngine.Regions
import EmbeddedProjects.FirEngine.Report
import EmbeddedProjects.FirEngine.RingFifo
import EmbeddedProjects.FirEngine.Rtl
import EmbeddedProjects.FirEngine.SlotArithmetic
import EmbeddedProjects.FirEngine.SlotCounter
import EmbeddedProjects.FirEngine.Spacing
import EmbeddedProjects.FirEngine.Spec
import EmbeddedProjects.FirEngine.SpecGrammar
import EmbeddedProjects.FirEngine.SpecLines
import EmbeddedProjects.FirEngine.SpecOrder
import EmbeddedProjects.FirEngine.SpecReader
import EmbeddedProjects.FirEngine.SpecSyntax
import EmbeddedProjects.FirEngine.SpecText
import EmbeddedProjects.FirEngine.Streams
import EmbeddedProjects.FirEngine.StringMatchStream
import EmbeddedProjects.KeyPanel.Deliveries
import EmbeddedProjects.KeyPanel.Gestures
import EmbeddedProjects.KeyPanel.Header
import EmbeddedProjects.KeyPanel.InputCore
import EmbeddedProjects.KeyPanel.KeyReplay
import EmbeddedProjects.KeyPanel.Presses
import EmbeddedProjects.KeyPanel.Rotary
import EmbeddedProjects.KeyPanel.RxFrame
import EmbeddedProjects.KeyPanel.SscHandle
import EmbeddedProjects.KeyPanel.SscSharing
import EmbeddedProjects.KeyPanel.Unload
import EmbeddedProjects.Lib.AlignedRing
import EmbeddedProjects.Lib.Bits
import EmbeddedProjects.Lib.Changes
import EmbeddedProjects.Lib.Clocked
import EmbeddedProjects.Lib.Counting
import EmbeddedProjects.Lib.Decimal
import EmbeddedProjects.Lib.Delta
import EmbeddedProjects.Lib.Descending
import EmbeddedProjects.Lib.Growing
import EmbeddedProjects.Lib.Handle
import EmbeddedProjects.Lib.Layout
import EmbeddedProjects.Lib.Ledger
import EmbeddedProjects.Lib.Literal
import EmbeddedProjects.Lib.Mailbox
import EmbeddedProjects.Lib.Markup
import EmbeddedProjects.Lib.Numbered
import EmbeddedProjects.Lib.Orbit
import EmbeddedProjects.Lib.Outcome
import EmbeddedProjects.Lib.Port
import EmbeddedProjects.Lib.Scan
import EmbeddedProjects.Lib.Toggle
import EmbeddedProjects.Lib.While
import EmbeddedProjects.Lib.Windows
import EmbeddedProjects.Lib.Wrap
import EmbeddedProjects.Lib.Writes
