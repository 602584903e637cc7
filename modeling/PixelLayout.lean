import PixelLayout.Main
import PixelLayout.Declaration
import PixelLayout.Node.Edit
import PixelLayout.Profile.Reading
import PixelLayout.Proofs.Findings
import PixelLayout.Proofs.Refresh
import PixelLayout.Proofs.Stopped
import PixelLayout.Proofs.History
import PixelLayout.Proofs.Prefix
import PixelLayout.Proofs.Unruled
import PixelLayout.Proofs.Shown
import PixelLayout.Proofs.Lossless
import PixelLayout.Proofs.Generated
import PixelLayout.Proofs.Mirror
import PixelLayout.Proofs.Locality
import PixelLayout.Proofs.TextBox
import PixelLayout.Proofs.PrintedText
import PixelLayout.Proofs.Slots
import PixelLayout.Proofs.RenderRun
import PixelLayout.Proofs.Centring
import PixelLayout.Proofs.Enlarged
import PixelLayout.Proofs.ListItems
import PixelLayout.Proofs.SplitCut
import PixelLayout.Proofs.ArgumentGrammar
import PixelLayout.Proofs.Built
import PixelLayout.Proofs.OnDisplay
import PixelLayout.Proofs.Completeness
import PixelLayout.Proofs.Dump
import PixelLayout.Proofs.TableCheck
import PixelLayout.Proofs.Translation
import PixelLayout.Proofs.SharedPixels
