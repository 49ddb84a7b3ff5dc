import PtfConverter.Soundness.V1730RoundTrip
import PtfConverter.Soundness.ScanSplit
import PtfConverter.Soundness.BankSafety
import PtfConverter.Soundness.FileRoundTrip
import PtfConverter.Soundness.VF48RoundTrip
import PtfConverter.Soundness.VF48Chunks
import PtfConverter.Soundness.VF48Queue
import PtfConverter.Soundness.VF48Isolation
import PtfConverter.Soundness.VF48Samples
import PtfConverter.Soundness.VF48Triggers
import PtfConverter.Soundness.OldVF48Units
import PtfConverter.Soundness.OldVF48Runs
import PtfConverter.Soundness.MpmtIsolation
import PtfConverter.Soundness.ScanWindow
import PtfConverter.Soundness.MesytecMask
import PtfConverter.Soundness.TDC1190RoundTrip
import PtfConverter.Soundness.V1720RoundTrip
import PtfConverter.Soundness.XmlOdbLookup
import PtfConverter.Soundness.VT48Alignment
import PtfConverter.Soundness.VF48MultiAgreement
import PtfConverter.Soundness.TDC1190Errors
import PtfConverter.Soundness.V1720Encodings
import PtfConverter.Soundness.RawBankSafety
import PtfConverter.Soundness.VF48Completion
import PtfConverter.Soundness.FindBankAgreement
import PtfConverter.Soundness.DataContainerCache
import PtfConverter.Soundness.VF48Attribution
import PtfConverter.Soundness.OldVF48Attribution
import PtfConverter.Soundness.VF48Coincidence
import PtfConverter.Soundness.FileFailures
import PtfConverter.Soundness.VF48Tables
import PtfConverter.Soundness.VF48PioBound
import PtfConverter.Soundness.SkimBounds
import PtfConverter.Soundness.VF48SharedBits
import PtfConverter.Soundness.VF48EventOrder
import PtfConverter.Soundness.XmlOdbUnnamed
import PtfConverter.Soundness.VF48ParameterStore
import PtfConverter.Soundness.VF48ReadOut
import PtfConverter.Soundness.EventSkim
import PtfConverter.Soundness.RunFiles
import PtfConverter.Soundness.OnlineRuns
import PtfConverter.Soundness.ScanContents
import PtfConverter.Soundness.MpmtProgram
import PtfConverter.Soundness.VF48ReadEvent
