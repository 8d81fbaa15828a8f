import DcaConv.Library.CountedLoop
import DcaConv.Library.Fallible
import DcaConv.Library.Interleave
import DcaConv.Library.LastWrite
import DcaConv.Library.LittleEndian
import DcaConv.Library.Memory
import DcaConv.Library.NearestEven
import DcaConv.Library.Pointer
import DcaConv.Library.Program
import DcaConv.Library.Rotation
import DcaConv.Library.Scan
import DcaConv.Library.Transducer
import DcaConv.Library.Window
import DcaConv.Machine
import DcaConv.Adpcm.Codec
import DcaConv.Adpcm.Lockstep
import DcaConv.Adpcm.Execution
import DcaConv.Adpcm.Range
import DcaConv.Adpcm.Extent
import DcaConv.Adpcm.Accuracy
import DcaConv.Adpcm.Settle
import DcaConv.Header.Basic
import DcaConv.Header.Valid
import DcaConv.Header.Targets
import DcaConv.Rate.Convert
import DcaConv.Rate.RoundTrip
import DcaConv.Rate.Growth
import DcaConv.Rate.Accuracy
import DcaConv.Rate.Order
import DcaConv.Rate.Float
import DcaConv.Container.Converter
import DcaConv.Container.Load
import DcaConv.Container.Safety
import DcaConv.Container.Write
import DcaConv.Container.Samples
import DcaConv.Container.RoundTrip
import DcaConv.Container.Rewrite
import DcaConv.Container.Sizes
import DcaConv.Wav.Interleave
import DcaConv.Wav.File
import DcaConv.CommandLine.Optparse
import DcaConv.CommandLine.Table
import DcaConv.CommandLine.Reading
import DcaConv.CommandLine.Calls
import DcaConv.CommandLine.Loop
import DcaConv.CommandLine.Session
import DcaConv.CommandLine.Spelling
import DcaConv.Pipeline.Options
import DcaConv.CommandLine.Switches
import DcaConv.CommandLine.Meaning
import DcaConv.Pipeline.Trim
import DcaConv.Pipeline.ExplicitPoints
import DcaConv.Pipeline.Output
import DcaConv.Pipeline.Downmix
import DcaConv.Pipeline.LoopPoints
import DcaConv.Pipeline.Run
import DcaConv.Pipeline.Silence
import DcaConv.Pipeline.Length
import DcaConv.Pipeline.Fits
import DcaConv.Pipeline.Exit
import DcaConv.Pipeline.Buffers
import DcaConv.Pipeline.Plain
import DcaConv.Process.Loaders
import DcaConv.Process.Main
import DcaConv.Process.Runs
import DcaConv.Process.Stored
import DcaConv.Process.Lossless
import DcaConv.Process.Ending
